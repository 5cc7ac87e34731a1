import Blanking.Payload.Check
import Blanking.Proofs.Number.Double
import Blanking.Proofs.Slicer.Config
import Blanking.Proofs.Slicer.Packing

/-! # Targets with bits of whole samples

Where every bit takes the same whole number of samples, all quantities that a slicer derives from
its target are exact, although some of them are computed in double precision. -/

namespace Blanking

namespace Target

/-- The bits of a transmission in the order in which they are sent. -/
def sentBits (target : Target) (payload : List Bool) : List Bool :=
  Check.bitsOf target.cri.toNat target.criBits ++ Check.bitsOf target.frc.toNat target.frcBits ++
    payload

/-- A target of 8 bit samples, every bit of which takes `n` samples. There is room on the line for
a transmission from sample `start` on, and the run-in is not taken for complete before it is. -/
structure Regular (target : Target) (n start : Nat) : Prop where
  format : target.format = .yuv420
  modulation : target.modulation.isBiphase = false
  two_le : 2 ≤ n
  rate : target.rate = n * target.criRate
  rate_lt : target.rate < 2 ^ 32
  criRate_pos : 0 < target.criRate
  payloadRate : target.payloadRate = target.criRate
  criBits_pos : 0 < target.criBits
  criBits_le : target.criBits ≤ 32
  frcBits_le : target.frcBits ≤ 32
  payloadBits_le : target.payloadBits ≤ 448
  notEarly : ∀ count < target.criBits,
    wordOfBits ((Check.bitsOf target.cri.toNat target.criBits).take count) &&&
        (target.criMask &&& lowBits target.criBits) ≠
      target.cri &&& (target.criMask &&& lowBits target.criBits)
  offset_le : target.sampleOffset ≤ start
  end_lt : start + n * (target.criBits + target.frcBits + target.payloadBits) <
    target.samplesPerLine
  samplesPerLine_lt : target.samplesPerLine < 2 ^ 22
  criEnd_ge : start + n * target.criBits ≤ target.criEnd

theorem Regular.multiple_lt {target : Target} {n start : Nat} (h : target.Regular n start) :
    256 * n < 2 ^ 30 := by
  have hbits := Nat.le_mul_of_pos_right n
    (show 0 < target.criBits + target.frcBits + target.payloadBits by
      have := h.criBits_pos
      omega)
  have hend := h.end_lt
  have hline := h.samplesPerLine_lt
  omega

end Target

namespace Check

@[simp]
theorem length_bitsOf (value count : Nat) : (bitsOf value count).length = count := by
  induction count with
  | zero => rfl
  | succ count ih => rw [bitsOf, List.length_cons, ih]

theorem numberOfBits_bitsOf (value count : Nat) :
    Payload.numberOfBits (bitsOf value count) = value % 2 ^ count := by
  induction count with
  | zero => simp [bitsOf, Payload.numberOfBits, Nat.mod_one]
  | succ count ih =>
      rw [bitsOf, Payload.numberOfBits_cons, ih, length_bitsOf, Nat.toNat_testBit, Nat.mod_pow_succ,
        Nat.mul_comm, Nat.add_comm]

theorem wordOfBits_bitsOf (word : UInt32) {count : Nat} (hcount : count ≤ 32) :
    wordOfBits (bitsOf word.toNat count) = word &&& lowBits count := by
  apply UInt32.toNat_inj.mp
  have hlt := Nat.mod_lt word.toNat (Nat.two_pow_pos count)
  have hle : 2 ^ count ≤ 2 ^ 32 := Nat.pow_le_pow_right (by decide) hcount
  rw [toNat_wordOfBits, numberOfBits_bitsOf, toNat_and_lowBits word hcount,
    Nat.mod_eq_of_lt (Nat.lt_of_lt_of_le hlt hle)]

end Check

namespace Target

section SentBits

variable {target : Target} {payload : List Bool}

theorem length_sentBits : (target.sentBits payload).length =
    target.criBits + target.frcBits + payload.length := by
  rw [sentBits, List.length_append, List.length_append, Check.length_bitsOf, Check.length_bitsOf]

theorem take_sentBits {count : Nat} (hcount : count ≤ target.criBits) :
    (target.sentBits payload).take count =
      (Check.bitsOf target.cri.toNat target.criBits).take count := by
  rw [sentBits, List.append_assoc, List.take_append_of_le_length]
  rwa [Check.length_bitsOf]

theorem getD_sentBits_frc {number : Nat} (hnumber : number < target.frcBits) :
    (target.sentBits payload).getD (target.criBits + number) false =
      (Check.bitsOf target.frc.toNat target.frcBits).getD number false := by
  have hcri : (Check.bitsOf target.cri.toNat target.criBits).length ≤
      target.criBits + number := by
    rw [Check.length_bitsOf]
    exact Nat.le_add_right _ _
  rw [sentBits, List.append_assoc, List.getD_eq_getElem?_getD, List.getD_eq_getElem?_getD,
    List.getElem?_append_right hcri, Check.length_bitsOf, Nat.add_sub_cancel_left,
    List.getElem?_append_left (by rwa [Check.length_bitsOf])]

theorem getD_sentBits_payload (number : Nat) :
    (target.sentBits payload).getD (target.criBits + target.frcBits + number) false =
      payload.getD number false := by
  have hfront : (Check.bitsOf target.cri.toNat target.criBits ++
      Check.bitsOf target.frc.toNat target.frcBits).length =
        target.criBits + target.frcBits := by
    rw [List.length_append, Check.length_bitsOf, Check.length_bitsOf]
  rw [sentBits, List.getD_eq_getElem?_getD, List.getD_eq_getElem?_getD,
    List.getElem?_append_right (by omega), hfront, Nat.add_sub_cancel_left]

end SentBits

end Target

namespace SlicerConfig

open Double Target

theorem holds_bitLength {n rate : Nat} (hn : 0 < n) (hrate : 0 < rate) (hlt : n * rate < 2 ^ 32) :
    Holds (bitLength (n * rate) rate) (256 * n) := by
  have hpos : 0 < n * rate := Nat.mul_pos hn hrate
  have hle : rate ≤ n * rate := Nat.le_mul_of_pos_left rate hn
  have hscale : Holds 256 256 := by
    have heq : (256 : Float) = ofNat 256 := by decide +kernel
    rw [heq]
    exact holds_ofNat (by decide) (by decide)
  have hscaled := (holds_ofNat hpos (by omega)).mul hscale (by omega) (by omega)
  rw [Nat.mul_right_comm, Nat.mul_comm n 256] at hscaled
  have hless : n ≤ n * rate := Nat.le_mul_of_pos_right n hrate
  exact hscaled.div (holds_ofNat hrate (by omega)) (Nat.mul_pos (by omega) hrate) (by omega)

section Regular

variable {target : Target} {n start : Nat}

@[simp]
theorem sampleOffset_derive : (derive target).sampleOffset = target.sampleOffset := rfl

theorem holds_bitLength_payload (h : Regular target n start) :
    Holds (bitLength target.rate target.payloadRate) (256 * n) := by
  have hlt := h.rate_lt
  rw [h.rate] at hlt
  rw [h.rate, h.payloadRate]
  exact holds_bitLength (by have := h.two_le; omega) h.criRate_pos hlt

/-- The bits of framing code and payload are read in steps of exactly their length. -/
theorem step_derive (h : Regular target n start) : (derive target).step = 256 * n := by
  have htwo := h.two_le
  have hlt := h.multiple_lt
  have hround := (holds_bitLength_payload h).round (by omega) (by omega)
  simp only [derive, hround, farthest]
  omega

/-- The first of them is read a bit behind the last one of the run-in. -/
theorem phaseShift_derive (h : Regular target n start) :
    (derive target).phaseShift = 256 * n := by
  have htwo := h.two_le
  have hlt := h.multiple_lt
  have hbit := holds_bitLength_payload h
  rw [show 256 * n = 2 * (128 * n) by omega] at hbit
  have hhalf := hbit.mul_half (by omega) (by omega)
  have hround := (hhalf.add hhalf (by omega) (by omega)).round (by omega) (by omega)
  rw [h.payloadRate] at hround
  simp only [derive, phaseShiftOf, h.modulation, Bool.false_eq_true, if_false, h.payloadRate,
    hround, farthest]
  omega

/-- The bits of the run-in are the expected pattern. -/
theorem word_criBits (h : Regular target n start) {payload : List Bool} :
    wordOfBits ((target.sentBits payload).take target.criBits) &&& (derive target).criMask =
      (derive target).cri := by
  have hlength := Nat.le_of_eq (Check.length_bitsOf target.cri.toNat target.criBits)
  rw [take_sentBits (Nat.le_refl _), List.take_of_length_le hlength,
    Check.wordOfBits_bitsOf _ h.criBits_le]
  simp only [derive]
  rw [UInt32.and_comm target.criMask, UInt32.and_assoc, ← UInt32.and_assoc (lowBits _) (lowBits _),
    UInt32.and_self]

theorem samplesFor_regular (h : Regular target n start) (bits : Nat) :
    samplesFor target.rate bits target.criRate = n * bits := by
  rw [samplesFor, h.rate, Nat.mul_right_comm, Nat.mul_div_cancel _ h.criRate_pos]

/-- The search lasts for the whole run-in. -/
theorem criEnd_derive_ge (h : Regular target n start) :
    start + n * target.criBits ≤ (derive target).criEnd := by
  have hdata : dataSamples target = n * (target.frcBits + target.payloadBits) := by
    rw [dataSamples, h.payloadRate, samplesFor_regular h, dataBits]
  have hend := h.end_lt
  have hcriEnd := h.criEnd_ge
  rw [Nat.add_assoc target.criBits, Nat.mul_add] at hend
  simp only [derive, hdata]
  omega

theorem ofTarget_regular (h : Regular target n start) :
    ofTarget target = .ok (derive target) := by
  have hrate : target.criRate ≤ target.rate := by
    rw [h.rate]
    exact Nat.le_mul_of_pos_left _ (by have := h.two_le; omega)
  have hpos := h.criRate_pos
  have hlength : target.sampleOffset + (criSamples target + dataSamples target) ≤
      target.samplesPerLine := by
    have hend := h.end_lt
    have hoffset := h.offset_le
    rw [Nat.add_assoc target.criBits, Nat.mul_add] at hend
    rw [criSamples, dataSamples, dataBits, h.payloadRate, samplesFor_regular h,
      samplesFor_regular h]
    omega
  have hpayload : (target.payloadBits + 7) / 8 ≤ recordBytes := by
    have hle := h.payloadBits_le
    rw [recordBytes]
    omega
  rw [ofTarget_eq_ok_iff]
  refine ⟨⟨by omega, hpos, hrate, ?_, ?_, h.criBits_le, h.frcBits_le, hpayload, hlength⟩, rfl⟩
  · rwa [h.payloadRate]
  · rwa [h.payloadRate]

end Regular

end SlicerConfig

end Blanking
