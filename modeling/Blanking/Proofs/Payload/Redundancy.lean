import Mathlib.Algebra.Ring.Nat
import Mathlib.Logic.Function.Iterate
import Mathlib.Tactic.WLOG
import Blanking.Proofs.Payload.Check

/-! # Errors that a check finds

The register of the cyclic redundancy check is linear in the message. Moving it on is invertible and
takes 63 moves to come back to the same value. So a message with its check leaves the register
empty, and no message of up to 63 bits in which one bit or two bits are wrong does. -/

namespace Blanking.Check

/-! ## Moves of the register -/

/-- What comes in at the low end of the register when a bit leaves it. -/
def feedback (bit : Bool) : Crc := if bit then 3#6 else 0#6

/-- Moves the register on by one place. -/
def advance (register : Crc) : Crc := step register false

theorem feedback_xor (x y : Bool) : feedback (x ^^ y) = feedback x ^^^ feedback y := by
  cases x <;> cases y <;> decide

theorem step_eq (register : Crc) (bit : Bool) :
    step register bit = register <<< 1 ^^^ feedback (register.msb ^^ bit) := by
  rw [step, feedback]
  split
  next => rfl
  next => rw [BitVec.xor_zero]

/-- The register is linear in what it holds and in the bit that is shifted in. -/
theorem step_xor (a b : Crc) (x y : Bool) : step (a ^^^ b) (x ^^ y) = step a x ^^^ step b y := by
  have hbits : (a.msb ^^ b.msb ^^ (x ^^ y)) = ((a.msb ^^ x) ^^ (b.msb ^^ y)) := by
    rw [Bool.xor_assoc, Bool.xor_assoc, Bool.xor_left_comm b.msb]
  rw [step_eq, step_eq, step_eq, BitVec.msb_xor, BitVec.shiftLeft_xor_distrib, hbits, feedback_xor]
  ac_rfl

theorem advance_xor (a b : Crc) : advance (a ^^^ b) = advance a ^^^ advance b :=
  step_xor a b false false

theorem advance_eq_zero {register : Crc} (h : advance register = 0#6) : register = 0#6 := by
  revert register
  decide

theorem advance_injective : Function.Injective advance := by
  intro a b h
  have hdifference : advance (a ^^^ b) = 0#6 := by rw [advance_xor, h, BitVec.xor_self]
  exact BitVec.xor_eq_zero_iff.mp (advance_eq_zero hdifference)

theorem advance_iterate_zero (moves : Nat) : advance^[moves] 0#6 = 0#6 :=
  Function.iterate_fixed rfl moves

/-- The register comes back to the generator after 63 moves at the earliest. -/
theorem advance_iterate_feedback_ne {moves : Nat} (hpos : 0 < moves) (hlt : moves < 63) :
    advance^[moves] (feedback true) ≠ feedback true := by
  have hall : ∀ moves < 63, 0 < moves → advance^[moves] (feedback true) ≠ feedback true := by
    decide +kernel
  exact hall moves hlt hpos

/-! ## Messages -/

/-- The register after the lowest bits of a number, highest first. -/
def absorb (register : Crc) (value count : Nat) : Crc := (bitsOf value count).foldl step register

theorem crc_eq_absorb (value count : Nat) : crc value count = absorb preset value count := rfl

theorem absorb_succ (register : Crc) (value count : Nat) :
    absorb register value (count + 1) = absorb (step register (value.testBit count)) value count :=
  rfl

theorem absorb_xor (a b : Crc) (value error count : Nat) :
    absorb (a ^^^ b) (value ^^^ error) count = absorb a value count ^^^ absorb b error count := by
  induction count generalizing a b with
  | zero => rfl
  | succ count ih => rw [absorb_succ, Nat.testBit_xor, step_xor, ih, ← absorb_succ, ← absorb_succ]

/-- Only the bits that are shifted in matter. -/
theorem absorb_congr {register : Crc} {value value' count : Nat}
    (h : ∀ place < count, value.testBit place = value'.testBit place) :
    absorb register value count = absorb register value' count := by
  induction count generalizing register with
  | zero => rfl
  | succ count ih =>
      rw [absorb_succ, absorb_succ, h count (Nat.lt_succ_self count)]
      exact ih fun place hplace => h place (Nat.lt_succ_of_lt hplace)

theorem absorb_zero (register : Crc) (count : Nat) :
    absorb register 0 count = advance^[count] register := by
  induction count generalizing register with
  | zero => rfl
  | succ count ih => rw [absorb_succ, Nat.zero_testBit, ih]; rfl

/-- The front of a message is shifted in before the rest. -/
theorem absorb_add (register : Crc) (value front rest : Nat) :
    absorb register value (front + rest) =
      absorb (absorb register (value / 2 ^ rest) front) value rest := by
  induction front generalizing register with
  | zero => rw [Nat.zero_add]; rfl
  | succ front ih =>
      rw [Nat.add_right_comm, absorb_succ, ih, absorb_succ, Nat.testBit_div_two_pow]

/-! ## The check behind the message -/

/-- What the register holds empties it. -/
theorem absorb_toNat (register : Crc) : absorb register register.toNat 6 = 0#6 := by
  revert register
  decide +kernel

theorem absorb_check (register : Crc) (word : Nat) :
    absorb register word 6 = advance^[6] (register ^^^ BitVec.ofNat 6 word) := by
  have hword : absorb (BitVec.ofNat 6 word) word 6 = 0#6 := by
    rw [← absorb_toNat (BitVec.ofNat 6 word)]
    refine absorb_congr fun place hplace => ?_
    rw [BitVec.toNat_ofNat, Nat.testBit_mod_two_pow, decide_eq_true hplace, Bool.true_and]
  have hsplit := absorb_xor (register ^^^ BitVec.ofNat 6 word) (BitVec.ofNat 6 word) 0 word 6
  rwa [BitVec.xor_assoc, BitVec.xor_self, BitVec.xor_zero, Nat.zero_xor, hword, BitVec.xor_zero,
    absorb_zero] at hsplit

/-- A word leaves the register empty exactly if it ends in the check of what is in front of it. -/
theorem crc_eq_zero_iff (word count : Nat) :
    crc word (count + 6) = 0#6 ↔ (crc (word / 0x40) count).toNat = word % 0x40 := by
  rw [crc_eq_absorb, absorb_add, absorb_check, ← crc_eq_absorb]
  constructor
  · intro hzero
    rw [← advance_iterate_zero 6] at hzero
    have hcheck := BitVec.xor_eq_zero_iff.mp (advance_injective.iterate 6 hzero)
    exact (congrArg BitVec.toNat hcheck).trans (BitVec.toNat_ofNat word 6)
  · intro hcheck
    have hregister : crc (word / 2 ^ 6) count = BitVec.ofNat 6 word :=
      BitVec.eq_of_toNat_eq (hcheck.trans (BitVec.toNat_ofNat word 6).symm)
    rw [hregister, BitVec.xor_self, advance_iterate_zero]

/-! ## Wrong bits -/

/-- A wrong bit shows up in the register as the generator, moved on by as many places as there are
bits behind it. -/
theorem absorb_two_pow {place count : Nat} (h : place < count) :
    absorb 0#6 (2 ^ place) count = advance^[place] (feedback true) := by
  induction count with
  | zero => exact absurd h (Nat.not_lt_zero place)
  | succ count ih =>
      rw [absorb_succ]
      rcases Nat.lt_succ_iff_lt_or_eq.mp h with hlt | rfl
      · rw [Nat.testBit_two_pow_of_ne (Nat.ne_of_lt hlt)]
        exact ih hlt
      · rw [Nat.testBit_two_pow_self, ← absorb_zero]
        refine absorb_congr fun other hother => ?_
        rw [Nat.testBit_two_pow_of_ne (Nat.ne_of_gt hother), Nat.zero_testBit]

theorem crc_xor (word error count : Nat) :
    crc (word ^^^ error) count = crc word count ^^^ absorb 0#6 error count := by
  rw [crc_eq_absorb, crc_eq_absorb, ← absorb_xor, BitVec.xor_zero]

section Flips

variable {word count i j : Nat} (hword : crc word count = 0#6)

include hword

theorem crc_flip_ne_zero (hi : i < count) : crc (word ^^^ 2 ^ i) count ≠ 0#6 := by
  rw [crc_xor, hword, BitVec.zero_xor, absorb_two_pow hi, ← advance_iterate_zero i]
  exact fun hzero => absurd (advance_injective.iterate i hzero) (by decide)

theorem crc_flip_flip_ne_zero (hcount : count ≤ 63) (hi : i < count) (hj : j < count)
    (hne : i ≠ j) : crc (word ^^^ 2 ^ i ^^^ 2 ^ j) count ≠ 0#6 := by
  wlog hlt : i < j generalizing i j
  · rw [Nat.xor_assoc, Nat.xor_comm (2 ^ i), ← Nat.xor_assoc]
    exact this hj hi hne.symm (Nat.lt_of_le_of_ne (Nat.le_of_not_lt hlt) hne.symm)
  rw [crc_xor, crc_xor, hword, BitVec.zero_xor, absorb_two_pow hi, absorb_two_pow hj]
  intro hzero
  -- What is left of both is the distance of the two bits.
  obtain ⟨distance, rfl⟩ := Nat.exists_eq_add_of_le (Nat.le_of_lt hlt)
  have hsame := BitVec.xor_eq_zero_iff.mp hzero
  rw [Function.iterate_add_apply] at hsame
  exact advance_iterate_feedback_ne (by omega) (by omega)
    (advance_injective.iterate i hsame).symm

end Flips

/-! ## A register in a byte -/

/-- A cyclic redundancy check whose register takes the low end of a byte. -/
structure Algorithm where
  generator : UInt8
  preset : UInt8
  width : Nat

namespace Algorithm

/-- The check of CPR-1204 payloads. -/
def cpr1204 : Algorithm := ⟨0x03, 0x3F, 6⟩

variable (algorithm : Algorithm)

/-- Shifts one bit of the message into the register. -/
def shift (register : UInt8) (bit : Bool) : UInt8 :=
  let highest : UInt8 := 1 <<< UInt8.ofNat (algorithm.width - 1)
  let mask : UInt8 := ((1 : UInt16) <<< UInt16.ofNat algorithm.width - 1).toUInt8
  let moved := (register <<< 1) &&& mask
  if (register &&& highest != 0) ^^ bit then moved ^^^ algorithm.generator else moved

/-- The register after the lowest bits of a word, highest first. -/
def shiftAll (value : UInt32) : (count : Nat) → (register : UInt8) → UInt8
  | 0, register => register
  | count + 1, register =>
      shiftAll value count
        (algorithm.shift register ((value >>> UInt32.ofNat count) &&& 1 != 0))

/-- The check of the lowest bits of a word. -/
def crcBits (value : UInt32) (count : Nat) : UInt8 :=
  algorithm.shiftAll value count algorithm.preset

end Algorithm

/-- The byte that holds a register. -/
def inByte (register : Crc) : UInt8 := UInt8.ofBitVec (register.setWidth 8)

theorem toNat_inByte (register : Crc) : (inByte register).toNat = register.toNat := by
  revert register
  decide

theorem shift_inByte (register : Crc) (bit : Bool) :
    Algorithm.cpr1204.shift (inByte register) bit = inByte (step register bit) := by
  revert register bit
  decide

theorem lowest_bit_shiftRight (value : UInt32) {place : Nat} (h : place < 32) :
    ((value >>> UInt32.ofNat place) &&& 1 != 0) = value.toNat.testBit place := by
  have hplace : (UInt32.ofNat place).toNat % 32 = place := by
    rw [UInt32.toNat_ofNat']
    omega
  rw [Nat.testBit, Bool.eq_iff_iff, bne_iff_ne, bne_iff_ne, ne_eq, ne_eq, ← UInt32.toNat_inj,
    UInt32.toNat_and, UInt32.toNat_shiftRight, hplace, Nat.and_comm]
  rfl

theorem shiftAll_inByte (value : UInt32) {count : Nat} (hcount : count ≤ 32) (register : Crc) :
    Algorithm.cpr1204.shiftAll value count (inByte register) =
      inByte (absorb register value.toNat count) := by
  induction count generalizing register with
  | zero => rfl
  | succ count ih =>
      rw [Algorithm.shiftAll, lowest_bit_shiftRight value hcount, shift_inByte,
        ih (Nat.le_of_succ_le hcount), ← absorb_succ]

/-- A register in a byte and words of 32 bits are wide enough. -/
theorem toNat_crcBits (value : UInt32) {count : Nat} (hcount : count ≤ 32) :
    (Algorithm.cpr1204.crcBits value count).toNat = (crc value.toNat count).toNat := by
  have hpreset : Algorithm.cpr1204.preset = inByte preset := by decide
  rw [Algorithm.crcBits, hpreset, shiftAll_inByte value hcount, toNat_inByte, crc_eq_absorb]

/-! ## Words in three bytes -/

theorem cpr1204Ok_iff (a b c : UInt8) (rest : List UInt8) :
    cpr1204Ok (a :: b :: c :: rest) = true ↔
      crc (a.toNat * 0x1000 + b.toNat * 0x10 + c.toNat % 0x10) 20 = 0#6 := by
  have hempty := crc_eq_zero_iff (a.toNat * 0x1000 + b.toNat * 0x10 + c.toNat % 0x10) dataBits
  exact beq_iff_eq.trans hempty.symm

theorem cpr1204Ok_iff_encode (a b c : UInt8) (rest : List UInt8) :
    cpr1204Ok (a :: b :: c :: rest) = true ↔
      [a, b, c &&& 0x0F] =
        cpr1204Encode ((a.toNat * 0x1000 + b.toNat * 0x10 + c.toNat % 0x10) / 0x40) := by
  have ha := a.toNat_lt
  have hb := b.toNat_lt
  have hlow : (c &&& 0x0F).toNat = c.toNat % 0x10 := Nat.and_two_pow_sub_one_eq_mod c.toNat 4
  constructor
  · intro hok
    -- The word that is packed is the one that was read.
    have hword : cpr1204Word ((a.toNat * 0x1000 + b.toNat * 0x10 + c.toNat % 0x10) / 0x40) =
        a.toNat * 0x1000 + b.toNat * 0x10 + c.toNat % 0x10 := by
      have hcheck := (crc_eq_zero_iff _ dataBits).mp ((cpr1204Ok_iff a b c rest).mp hok)
      rw [cpr1204Word, Nat.mod_eq_of_lt (show _ / 0x40 < 0x4000 by omega), hcheck]
      omega
    have hbyte (byte : UInt8) {value : Nat} (h : byte.toNat = value % 256) :
        byte = UInt8.ofNat value := by
      rw [← UInt8.toNat_inj, h, UInt8.toNat_ofNat']
    rw [cpr1204Encode_eq, hword, ← hbyte a (by omega), ← hbyte b (by omega),
      ← hbyte (c &&& 0x0F) (by omega)]
  · intro hbytes
    have hok := cpr1204Ok_encode
      ((a.toNat * 0x1000 + b.toNat * 0x10 + c.toNat % 0x10) / 0x40) rest
    rw [← hbytes, List.cons_append, List.cons_append, List.cons_append, List.nil_append,
      cpr1204Ok_iff, hlow, Nat.mod_mod, ← cpr1204Ok_iff] at hok
    exact hok

/-- A register in a byte computes the check. A word with its check leaves the register empty, and no
word does that differs from it in one bit or in two. A payload passes exactly if its word leaves the
register empty, and exactly if it is packed from the data in front of its check. -/
theorem errors_found :
    (∀ (value : UInt32) (count : Nat), count ≤ 32 →
      (Algorithm.cpr1204.crcBits value count).toNat = (crc value.toNat count).toNat) ∧
    (∀ value count : Nat, count ≤ 26 → value < 2 ^ count →
      let word := value * 0x40 + (crc value count).toNat
      word < 2 ^ (count + 6) ∧ crc word (count + 6) = 0#6 ∧
        (∀ i < count + 6, crc (word ^^^ 2 ^ i) (count + 6) ≠ 0#6) ∧
        ∀ i < count + 6, ∀ j < count + 6, i ≠ j →
          crc (word ^^^ 2 ^ i ^^^ 2 ^ j) (count + 6) ≠ 0#6) ∧
    ∀ (a b c : UInt8) (rest : List UInt8),
      let word := a.toNat * 0x1000 + b.toNat * 0x10 + c.toNat % 0x10
      (cpr1204Ok (a :: b :: c :: rest) = true ↔ crc word 20 = 0#6) ∧
        (cpr1204Ok (a :: b :: c :: rest) = true ↔
          [a, b, c &&& 0x0F] = cpr1204Encode (word / 0x40)) := by
  refine ⟨fun value count hcount => toNat_crcBits value hcount, ?_,
    fun a b c rest => ⟨cpr1204Ok_iff a b c rest, cpr1204Ok_iff_encode a b c rest⟩⟩
  intro value count hcount hvalue word
  have hcheck := (crc value count).isLt
  have hempty : crc word (count + 6) = 0#6 := by
    have hdata : word / 0x40 = value := by omega
    rw [crc_eq_zero_iff, hdata]
    omega
  refine ⟨by rw [Nat.pow_add]; omega, hempty, fun i hi => crc_flip_ne_zero hempty hi, ?_⟩
  exact fun i hi j hj hne => crc_flip_flip_ne_zero hempty (by omega) hi hj hne

/-- Fourteen bits with their check, one bit of them wrong, both ends wrong, and as a payload. -/
theorem errors_found_fourteenBits :
    14 ≤ 26 ∧ 0x1555 < 2 ^ 14 ∧ (Algorithm.cpr1204.crcBits 0x1555 14).toNat = 0x2A ∧
      crc 0x5556A 20 = 0#6 ∧ crc (0x5556A ^^^ 2 ^ 12) 20 ≠ 0#6 ∧
      crc (0x5556A ^^^ 2 ^ 0 ^^^ 2 ^ 19) 20 ≠ 0#6 ∧
      cpr1204Ok [0x55, 0x56, 0xEA, 0x00] = true ∧ [0x55, 0x56, 0x0A] = cpr1204Encode 0x1555 := by
  obtain ⟨hbyte, hword, hpayload⟩ := errors_found
  have hcheck : (crc 0x1555 14).toNat = 0x2A := by decide +kernel
  obtain ⟨-, hempty, hone, htwo⟩ := hword 0x1555 14 (by decide) (by omega)
  simp only [hcheck] at hempty hone htwo
  obtain ⟨hok, hencode⟩ := hpayload 0x55 0x56 0xEA [0x00]
  exact ⟨by decide, by omega, (hbyte 0x1555 14 (by decide)).trans hcheck, hempty,
    hone 12 (by decide), htwo 0 (by decide) 19 (by decide) (by decide), hok.mpr hempty,
    hencode.mp (hok.mpr hempty)⟩

end Blanking.Check
