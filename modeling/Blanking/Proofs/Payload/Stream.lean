import Blanking.Proofs.Payload.RoundTrip

/-! # Payloads through bit streams

Payload bytes are read and written one bit at a time. The streams that do this are not fixed: all
that is known of them is in which order they take the bits of a byte, and that an unfinished byte is
filled up with zeros. That is enough for the bytes and bits of a payload to be what they are meant
to be, and for no read or write to fail. -/

namespace Blanking.Payload

/-- The bits of bytes in the order of transmission. -/
def bitsOf (msbFirst : Bool) (data : List UInt8) : List Bool :=
  data.flatMap (bitsOfByte msbFirst 8)

/-! ## Streams -/

/-- What hands out the bits of bytes one after the other. -/
structure BitReader (msbFirst : Bool) where
  State : Type
  start : List UInt8 → State
  /-- The next bit. There is none at the end. -/
  read : State → Option (Bool × State)
  /-- The bits that are still to be read. -/
  rest : State → List Bool
  rest_start : ∀ data, rest (start data) = bitsOf msbFirst data
  read_eq : ∀ state, (read state).map (fun next => (next.1, rest next.2)) =
    (rest state).head?.map fun bit => (bit, (rest state).tail)

/-- What puts bits together to bytes in memory. -/
structure BitWriter (msbFirst : Bool) where
  State : Type
  start : State
  write : State → Bool → Option State
  /-- Goes on to the next byte. -/
  align : State → Option State
  /-- The bytes that are complete. -/
  finish : State → List UInt8
  /-- The bits that were written. -/
  written : State → List Bool
  written_start : written start = []
  write_eq : ∀ state bit, (write state bit).map written = some (written state ++ [bit])
  align_eq : ∀ state, (align state).map written =
    some (written state ++ List.replicate ((8 - (written state).length % 8) % 8) false)
  finish_eq : ∀ state,
    bitsOf msbFirst (finish state) =
      (written state).take ((written state).length - (written state).length % 8)

namespace BitReader

variable {msbFirst : Bool} (reader : BitReader msbFirst)

/-- The next bits. -/
def readMany : (count : Nat) → reader.State → Option (List Bool × reader.State)
  | 0, state => some ([], state)
  | count + 1, state => do
      let (bit, state) ← reader.read state
      let (bits, state) ← readMany count state
      return (bit :: bits, state)

/-- The bits of a payload. Those in the last byte that are not of it are in front of its own if the
highest bit comes first. -/
def readPayload (data : List UInt8) (count : Nat) : Option (List Bool) := do
  let (bits, state) ← reader.readMany (count - count % 8) (reader.start data)
  if count % 8 = 0 then return bits
  let (_, state) ← reader.readMany (if msbFirst then 8 - count % 8 else 0) state
  let (tail, _) ← reader.readMany (count % 8) state
  return bits ++ tail

end BitReader

namespace BitWriter

variable {msbFirst : Bool} (writer : BitWriter msbFirst)

/-- The bytes of a payload. -/
def writePayload (bits : List Bool) : Option (List UInt8) := do
  let whole := bits.length - bits.length % 8
  let state ← (bits.take whole).foldlM writer.write writer.start
  if bits.length % 8 = 0 then return writer.finish state
  let filler := List.replicate (if msbFirst then 8 - bits.length % 8 else 0) false
  let state ← filler.foldlM writer.write state
  let state ← (bits.drop whole).foldlM writer.write state
  let state ← writer.align state
  return writer.finish state

end BitWriter

/-! ## Reading -/

@[simp]
theorem bitsOf_nil (msbFirst : Bool) : bitsOf msbFirst [] = [] := rfl

@[simp]
theorem bitsOf_cons (msbFirst : Bool) (byte : UInt8) (rest : List UInt8) :
    bitsOf msbFirst (byte :: rest) = bitsOfByte msbFirst 8 byte ++ bitsOf msbFirst rest := rfl

@[simp]
theorem length_bitsOf (msbFirst : Bool) (data : List UInt8) :
    (bitsOf msbFirst data).length = 8 * data.length := by
  induction data with
  | nil => rfl
  | cons byte rest ih =>
      rw [bitsOf_cons, List.length_append, length_bitsOfByte, ih, List.length_cons]
      omega

/-- The lowest bits of a byte are the last or the first of its bits. -/
theorem bitsOfByte_eq_take (msbFirst : Bool) {count : Nat} (hcount : count ≤ 8) (byte : UInt8) :
    bitsOfByte msbFirst count byte =
      ((bitsOfByte msbFirst 8 byte).drop (if msbFirst then 8 - count else 0)).take count := by
  have hrange : (List.range 8).take count = List.range count := by
    rw [List.take_range, Nat.min_eq_left hcount]
  cases msbFirst with
  | false => simp [bitsOfByte, ← List.map_take, hrange]
  | true =>
      have hback : 8 - (8 - count) = count := by omega
      simp only [bitsOfByte, if_true, List.drop_reverse, ← List.map_take, List.length_map,
        List.length_range, hback, hrange]
      rw [List.take_of_length_le (by simp)]

/-- The bits that are read of the stream of all bits. -/
theorem unpack_eq (msbFirst : Bool) {count : Nat} {data : List UInt8}
    (hlong : bytesFor count ≤ data.length) :
    unpack msbFirst count data =
      (bitsOf msbFirst data).take (count - count % 8) ++
        (((bitsOf msbFirst data).drop (count - count % 8)).drop
          (if msbFirst then 8 - count % 8 else 0)).take (count % 8) := by
  induction count, data, hlong using bytes_induction with
  | none data => cases data <;> simp [unpack]
  | tail count byte rest _ hpos hcount =>
      have hdrop : (if msbFirst then 8 - count else 0) + count ≤ 8 := by split <;> omega
      rw [unpack_of_lt msbFirst hpos hcount, Nat.mod_eq_of_lt hcount, Nat.sub_self,
        List.take_zero, List.drop_zero, List.nil_append, bitsOfByte_eq_take msbFirst hcount.le,
        bitsOf_cons, List.drop_append_of_le_length (by rw [length_bitsOfByte]; omega),
        List.take_append_of_le_length (by rw [List.length_drop, length_bitsOfByte]; omega)]
  | whole count byte rest _ _ ih =>
      have hlength := length_bitsOfByte msbFirst 8 byte
      have hwhole : count + 8 - (count + 8) % 8 =
          (bitsOfByte msbFirst 8 byte).length + (count - count % 8) := by
        have hle := Nat.mod_le count 8
        rw [hlength, Nat.add_mod_right]
        omega
      rw [unpack_add_eight, ih, hwhole, Nat.add_mod_right, bitsOf_cons, List.take_length_add_append,
        List.drop_length_add_append, List.append_assoc]

namespace BitReader

variable {msbFirst : Bool} (reader : BitReader msbFirst)

theorem exists_read {state : reader.State} {bit : Bool} {bits : List Bool}
    (hrest : reader.rest state = bit :: bits) :
    ∃ next, reader.read state = some (bit, next) ∧ reader.rest next = bits := by
  have hread := reader.read_eq state
  rw [hrest, List.head?_cons, List.tail_cons, Option.map_some] at hread
  obtain ⟨⟨bit', next⟩, hnext, hpair⟩ := Option.map_eq_some_iff.mp hread
  obtain ⟨rfl, rfl⟩ := Prod.mk.inj hpair
  exact ⟨next, hnext, rfl⟩

theorem exists_readMany {count : Nat} {state : reader.State}
    (hcount : count ≤ (reader.rest state).length) :
    ∃ next, reader.readMany count state = some ((reader.rest state).take count, next) ∧
      reader.rest next = (reader.rest state).drop count := by
  induction count generalizing state with
  | zero => exact ⟨state, rfl, rfl⟩
  | succ count ih =>
      obtain ⟨bit, bits, hrest⟩ := List.exists_cons_of_length_pos (Nat.zero_lt_of_lt hcount)
      obtain ⟨next, hread, hnext⟩ := reader.exists_read hrest
      have hbits : count ≤ (reader.rest next).length := by
        rw [hrest, List.length_cons] at hcount
        rw [hnext]
        exact Nat.le_of_succ_le_succ hcount
      obtain ⟨last, hmany, hlast⟩ := ih hbits
      refine ⟨last, ?_, by rw [hlast, hnext, hrest, List.drop_succ_cons]⟩
      rw [readMany, hread, Option.bind_eq_bind, Option.bind_some]
      simp [hmany, hnext, hrest]

/-- The bits of a payload are read as they are unpacked, and none of them behind the end. -/
theorem readPayload_eq {data : List UInt8} {count : Nat}
    (hlong : bytesFor count ≤ data.length) :
    reader.readPayload data count = some (unpack msbFirst count data) := by
  have hlength : (reader.rest (reader.start data)).length = 8 * data.length := by
    rw [reader.rest_start, length_bitsOf]
  have hbits : 8 * bytesFor count = count - count % 8 + if count % 8 = 0 then 0 else 8 := by
    rw [bytesFor]
    split <;> omega
  obtain ⟨state, hwhole, hstate⟩ :=
    reader.exists_readMany (show count - count % 8 ≤ (reader.rest (reader.start data)).length by
      split at hbits <;> omega)
  rw [unpack_eq msbFirst hlong, ← reader.rest_start, readPayload, hwhole, Option.bind_eq_bind,
    Option.bind_some]
  dsimp only
  split
  next htail => simp [htail]
  next htail =>
    have hleft : (reader.rest state).length = 8 * data.length - (count - count % 8) := by
      rw [hstate, List.length_drop, hlength]
    rw [if_neg htail] at hbits
    have hskip : (if msbFirst = true then 8 - count % 8 else 0) ≤ 8 - count % 8 := by
      split <;> omega
    obtain ⟨filled, hfiller, hfilled⟩ := reader.exists_readMany (Nat.le_trans hskip
      (show 8 - count % 8 ≤ (reader.rest state).length by omega))
    obtain ⟨last, hlast, _⟩ :=
      reader.exists_readMany (show count % 8 ≤ (reader.rest filled).length by
        rw [hfilled, List.length_drop]
        omega)
    rw [hfiller, Option.bind_some, hlast, Option.bind_some, hfilled, hstate]
    rfl

end BitReader

/-! ## Writing -/

/-- The bits of a payload with zeros that fill up its last byte. -/
def filled (msbFirst : Bool) (bits : List Bool) : List Bool :=
  let whole := bits.length - bits.length % 8
  let filler := List.replicate ((8 - bits.length % 8) % 8) false
  if msbFirst then bits.take whole ++ (filler ++ bits.drop whole) else bits ++ filler

theorem numberOfBits_replicate_append (count : Nat) (bits : List Bool) :
    numberOfBits (List.replicate count false ++ bits) = numberOfBits bits := by
  induction count with
  | zero => rfl
  | succ count ih =>
      rw [List.replicate_succ, List.cons_append, numberOfBits_cons, ih, Bool.toNat_false,
        Nat.zero_mul, Nat.zero_add]

theorem filled_of_whole (msbFirst : Bool) {bits : List Bool} (hwhole : bits.length % 8 = 0) :
    filled msbFirst bits = bits := by
  cases msbFirst <;> simp [filled, hwhole]

theorem length_filled (msbFirst : Bool) (bits : List Bool) :
    (filled msbFirst bits).length = 8 * bytesFor bits.length := by
  have hle := Nat.mod_le bits.length 8
  cases msbFirst <;> simp [filled, bytesFor] <;> omega

/-- Zeros above the bits of a byte do not change its value. -/
theorem byteOfBits_filled (msbFirst : Bool) {bits : List Bool} (hlength : bits.length ≤ 8) :
    byteOfBits msbFirst (filled msbFirst bits) = byteOfBits msbFirst bits := by
  cases msbFirst with
  | false =>
      simp only [byteOfBits, filled, Bool.false_eq_true, if_false, List.reverse_append,
        List.reverse_replicate, numberOfBits_replicate_append]
  | true =>
      rcases Nat.lt_or_eq_of_le hlength with hlt | hfull
      · simp only [byteOfBits, filled, if_true, Nat.mod_eq_of_lt hlt, Nat.sub_self,
          List.take_zero, List.drop_zero, List.nil_append, numberOfBits_replicate_append]
      · rw [filled_of_whole true (by rw [hfull])]

theorem filled_append (msbFirst : Bool) {front : List Bool} (hfront : front.length = 8)
    (rest : List Bool) : filled msbFirst (front ++ rest) = front ++ filled msbFirst rest := by
  have hmod : (front ++ rest).length % 8 = rest.length % 8 := by
    rw [List.length_append, hfront, Nat.add_mod_left]
  have hwhole : (front ++ rest).length - rest.length % 8 =
      front.length + (rest.length - rest.length % 8) := by
    rw [List.length_append, Nat.add_sub_assoc (Nat.mod_le _ _)]
  dsimp only [filled]
  rw [hmod, hwhole, List.take_length_add_append, List.drop_length_add_append]
  split <;> simp only [List.append_assoc]

theorem bitsOf_pack (msbFirst : Bool) (bits : List Bool) :
    bitsOf msbFirst (pack msbFirst bits) = filled msbFirst bits := by
  fun_induction pack msbFirst bits with
  | case1 => exact (filled_of_whole msbFirst rfl).symm
  | case2 bits hne _ ih =>
      rw [bitsOf_cons, ih]
      by_cases hlast : bits.length ≤ 8
      · have hpos := List.length_pos_iff.mpr hne
        have hlength : (filled msbFirst bits).length = 8 := by
          rw [length_filled, bytesFor]
          omega
        have hbyte := bitsOfByte_byteOfBits msbFirst hlength.le
        rw [hlength, byteOfBits_filled msbFirst hlast] at hbyte
        have hnone : filled msbFirst [] = [] := filled_of_whole msbFirst rfl
        rw [List.take_of_length_le hlast, List.drop_of_length_le hlast, hbyte, hnone,
          List.append_nil]
      · have hfront : (bits.take 8).length = 8 := by
          rw [List.length_take]
          omega
        have hbyte := bitsOfByte_byteOfBits msbFirst hfront.le
        rw [hfront] at hbyte
        rw [hbyte, ← filled_append msbFirst hfront, List.take_append_drop]

theorem pack_bitsOf (msbFirst : Bool) (data : List UInt8) :
    pack msbFirst (bitsOf msbFirst data) = data := by
  induction data with
  | nil => simp
  | cons byte rest ih =>
      rw [bitsOf_cons, Packing.pack_append (length_bitsOfByte msbFirst 8 byte), ih,
        byteOfBits_bitsOfByte, lowest_eight]

namespace BitWriter

variable {msbFirst : Bool} (writer : BitWriter msbFirst)

theorem exists_writeMany (bits : List Bool) (state : writer.State) :
    ∃ next, bits.foldlM writer.write state = some next ∧
      writer.written next = writer.written state ++ bits := by
  induction bits generalizing state with
  | nil => exact ⟨state, rfl, (List.append_nil _).symm⟩
  | cons bit rest ih =>
      obtain ⟨next, hnext, hwritten⟩ := Option.map_eq_some_iff.mp (writer.write_eq state bit)
      obtain ⟨last, hlast, hall⟩ := ih next
      refine ⟨last, ?_, by rw [hall, hwritten, List.append_assoc, List.singleton_append]⟩
      rw [List.foldlM_cons, hnext]
      exact hlast

/-- The bytes of a payload are written as they are packed. -/
theorem writePayload_eq (bits : List Bool) :
    writer.writePayload bits = some (pack msbFirst bits) := by
  -- All that has to be seen is which bits were written, since they tell the bytes.
  have hfinish {state : writer.State} (hwritten : writer.written state = filled msbFirst bits) :
      writer.finish state = pack msbFirst bits := by
    have hbits := writer.finish_eq state
    rw [hwritten, length_filled, Nat.mul_mod_right, Nat.sub_zero, ← length_filled msbFirst bits,
      List.take_length, ← bitsOf_pack] at hbits
    rw [← pack_bitsOf msbFirst (writer.finish state), hbits, pack_bitsOf]
  obtain ⟨front, hfront, hwhole⟩ := writer.exists_writeMany
    (bits.take (bits.length - bits.length % 8)) writer.start
  rw [writer.written_start, List.nil_append] at hwhole
  rw [writePayload]
  dsimp only
  rw [hfront, Option.bind_eq_bind, Option.bind_some]
  split
  next hmod =>
    refine congrArg some (hfinish ?_)
    rw [hwhole, hmod, Nat.sub_zero, List.take_length, filled_of_whole msbFirst hmod]
  next hmod =>
    obtain ⟨state, hfiller, hfilled⟩ := writer.exists_writeMany
      (List.replicate (if msbFirst then 8 - bits.length % 8 else 0) false) front
    obtain ⟨all, htail, hall⟩ := writer.exists_writeMany
      (bits.drop (bits.length - bits.length % 8)) state
    obtain ⟨last, halign, hlast⟩ := Option.map_eq_some_iff.mp (writer.align_eq all)
    rw [hfiller, Option.bind_some, htail, Option.bind_some, halign, Option.bind_some]
    refine congrArg some (hfinish ?_)
    have hlt := Nat.mod_lt bits.length (show 0 < 8 by decide)
    rw [hlast, hall, hfilled, hwhole]
    cases msbFirst with
    | false => simp [filled, List.take_append_drop]
    | true =>
        -- The last byte is full before it is aligned.
        have hfiller : (8 - bits.length % 8) % 8 = 8 - bits.length % 8 :=
          Nat.mod_eq_of_lt (by omega)
        have hfull : (bits.take (bits.length - bits.length % 8) ++
            (List.replicate (8 - bits.length % 8) false ++
              bits.drop (bits.length - bits.length % 8))).length % 8 = 0 := by
          simp only [List.length_append, List.length_take, List.length_replicate, List.length_drop]
          omega
        simp only [if_true, hfull, filled, hfiller, Nat.sub_zero, Nat.mod_self, List.replicate_zero,
          List.append_nil, List.append_assoc]

end BitWriter

/-! ## Payloads -/

/-- Why the bits of a payload are not read. -/
inductive ReadError where
  | tooShort (cause : TooShort)
  | endOfStream

/-- Reads the bits of a payload from its bytes. -/
def readBits (readers : (msbFirst : Bool) → BitReader msbFirst) (data : List UInt8) (count : Nat)
    (modulation : Modulation) : Except ReadError (List Bool) :=
  if data.length < bytesFor count then .error (.tooShort ⟨count, data.length⟩)
  else
    match (readers modulation.isMsbFirst).readPayload (data.take (bytesFor count)) count with
    | none => .error .endOfStream
    | some bits => .ok bits

/-- Writes the bits of a payload to bytes. -/
def writeBits (writers : (msbFirst : Bool) → BitWriter msbFirst) (bits : List Bool)
    (modulation : Modulation) : Option (List UInt8) :=
  (writers modulation.isMsbFirst).writePayload bits

theorem readBits_eq (readers : (msbFirst : Bool) → BitReader msbFirst) (data : List UInt8)
    (count : Nat) (modulation : Modulation) :
    readBits readers data count modulation =
      (toBits data count modulation).mapError .tooShort := by
  unfold readBits toBits
  split
  next => rfl
  next hlong =>
    have hlong := Nat.le_of_not_lt hlong
    have htake : bytesFor count ≤ (data.take (bytesFor count)).length := by
      rw [List.length_take, Nat.min_eq_left hlong]
    rw [BitReader.readPayload_eq _ htake, unpack_take _ hlong]
    rfl

theorem writeBits_eq (writers : (msbFirst : Bool) → BitWriter msbFirst) (bits : List Bool)
    (modulation : Modulation) :
    writeBits writers bits modulation = some (ofBits bits modulation) :=
  (writers modulation.isMsbFirst).writePayload_eq bits

/-- Any bits are read again from the bytes that they are written to, and any bytes are written
again from the bits that are read from them, up to what is no part of the payload. -/
theorem streams_round_trip (readers : (msbFirst : Bool) → BitReader msbFirst)
    (writers : (msbFirst : Bool) → BitWriter msbFirst) (modulation : Modulation) :
    (∀ bits : List Bool, ∃ data,
      writeBits writers bits modulation = some data ∧ ofBits bits modulation = data ∧
        data.length = bytesFor bits.length ∧
        readBits readers data bits.length modulation = .ok bits) ∧
    ∀ (data : List UInt8) (count : Nat),
      (data.length < bytesFor count →
        readBits readers data count modulation = .error (.tooShort ⟨count, data.length⟩)) ∧
      (bytesFor count ≤ data.length → ∃ bits,
        readBits readers data count modulation = .ok bits ∧
          toBits data count modulation = .ok bits ∧ bits.length = count ∧
          writeBits writers bits modulation = some (kept count data)) := by
  refine ⟨fun bits => ⟨_, writeBits_eq writers bits modulation, rfl, length_ofBits bits modulation,
    ?_⟩, fun data count => ⟨fun hshort => ?_, fun hlong => ?_⟩⟩
  · rw [readBits_eq, toBits_ofBits]
    rfl
  · rw [readBits, if_pos hshort]
  · have hbits : toBits data count modulation = .ok (unpack modulation.isMsbFirst count data) :=
      if_neg (Nat.not_lt_of_le hlong)
    refine ⟨_, ?_, hbits, length_unpack _ hlong, ?_⟩
    · rw [readBits_eq, hbits]
      rfl
    · rw [writeBits_eq, ofBits, pack_unpack _ hlong]

/-- A reader that keeps the bits still to be read. -/
def BitReader.ofRest (msbFirst : Bool) : BitReader msbFirst where
  State := List Bool
  start := bitsOf msbFirst
  read bits := bits.head?.map fun bit => (bit, bits.tail)
  rest bits := bits
  rest_start _ := rfl
  read_eq bits := by cases bits <;> rfl

/-- A writer that keeps the bits that were written. -/
def BitWriter.ofWritten (msbFirst : Bool) : BitWriter msbFirst where
  State := List Bool
  start := []
  write bits bit := some (bits ++ [bit])
  align bits := some (bits ++ List.replicate ((8 - bits.length % 8) % 8) false)
  finish bits := pack msbFirst (bits.take (bits.length - bits.length % 8))
  written bits := bits
  written_start := rfl
  write_eq _ _ := rfl
  align_eq _ := rfl
  finish_eq bits := by
    have hwhole : (bits.take (bits.length - bits.length % 8)).length % 8 = 0 := by
      rw [List.length_take]
      omega
    rw [bitsOf_pack, filled_of_whole msbFirst hwhole]

/-- Fourteen bits of two bytes, and what is left of the second byte. -/
theorem streams_round_trip_fourteenBits :
    bytesFor 14 ≤ [0x81, 0xE3].length ∧
      readBits BitReader.ofRest [0x81] 14 .biphaseLsb = .error (.tooShort ⟨14, 1⟩) ∧
      ∃ bits, readBits BitReader.ofRest [0x81, 0xE3] 14 .biphaseLsb = .ok bits ∧
        toBits [0x81, 0xE3] 14 .biphaseLsb = .ok bits ∧ bits.length = 14 ∧
        writeBits BitWriter.ofWritten bits .biphaseLsb = some [0x81, 0x23] := by
  obtain ⟨_, hdata⟩ := streams_round_trip BitReader.ofRest BitWriter.ofWritten .biphaseLsb
  exact ⟨by decide, (hdata [0x81] 14).1 (by decide), (hdata [0x81, 0xE3] 14).2 (by decide)⟩

end Blanking.Payload
