import Blanking.Proofs.Slicer.Data
import Blanking.Proofs.Slicer.Recovery
import Blanking.Proofs.Slicer.Regular

/-! # Sent and received

A payload that is sent on a line comes back from a slicer that was just configured, whatever the
two levels are as long as the first threshold lies well between them. The run-in ends the search
up to three steps before the centre of its last bit, and from there every position at which a bit
is read is as close to the centre of that bit. -/

namespace Blanking

namespace SlicerConfig

variable {c : SlicerConfig} {level : Nat → Nat} {slice : Int} {blank white n : Nat}

/-! ## Framing code and payload -/

/-- Between two samples of a bit that bit is read. -/
theorem bit_pointAt {kind : PointKind} {bit : Bool} {first position : Nat}
    (hslice : (blank : Int) < slice ∧ slice ≤ white)
    (hheld : ∀ sample < n, level (first + sample) = levelOf blank white bit) (hn : 0 < n)
    (hfirst : 256 * first ≤ position) (hlast : position ≤ 256 * (first + (n - 1))) :
    (pointAt level slice kind position).bit = bit := by
  obtain ⟨hlow, hhigh⟩ := hslice
  have hsplit := Nat.div_add_mod position 256
  have hpart := Nat.mod_lt position (show 0 < 256 by decide)
  have hnow : level (position / 256) = levelOf blank white bit := by
    obtain ⟨sample, hsample⟩ := Nat.exists_eq_add_of_le (show first ≤ position / 256 by omega)
    rw [hsample]
    exact hheld sample (by omega)
  have hsum : level (position / 256) * (256 - position % 256) +
      level (position / 256 + 1) * (position % 256) = 256 * levelOf blank white bit := by
    -- On a sample the next one has no weight, and may belong to another bit.
    rcases Nat.eq_zero_or_pos (position % 256) with hzero | hpos
    · rw [hzero, hnow]
      omega
    · have hnext : level (position / 256 + 1) = levelOf blank white bit := by
        obtain ⟨sample, hsample⟩ :=
          Nat.exists_eq_add_of_le (show first ≤ position / 256 + 1 by omega)
        rw [hsample]
        exact hheld sample (by omega)
      rw [hnow, hnext, ← Nat.mul_add, Nat.sub_add_cancel (Nat.le_of_lt hpart), Nat.mul_comm]
  rw [Point.bit, pointAt]
  simp only [hsum]
  cases bit <;> simp only [levelOf, Bool.false_eq_true, if_true, if_false, decide_eq_true_eq,
    decide_eq_false_iff_not] <;> omega

theorem map_bit_points {kind : PointKind} (hstep : c.step = 256 * n) (hn : 2 ≤ n)
    (hslice : (blank : Int) < slice ∧ slice ≤ white) {late : Nat} (hlate : late ≤ 3)
    (bits : List Bool) {first position : Nat}
    (hposition : position + 64 * late = 256 * first + 128 * n)
    (hheld : ∀ number < bits.length, ∀ sample < n,
      level (first + n * number + sample) = levelOf blank white (bits.getD number false)) :
    (c.points level slice kind bits.length position).map Point.bit = bits := by
  induction bits generalizing first position with
  | nil => rfl
  | cons bit rest ih =>
      have hbit : (pointAt level slice kind position).bit = bit := by
        have hfirst (sample : Nat) (hsample : sample < n) :
            level (first + sample) = levelOf blank white bit :=
          hheld 0 (by simp) sample hsample
        exact bit_pointAt hslice hfirst (by omega) (by omega) (by omega)
      have hrest (number : Nat) (hnumber : number < rest.length) (sample : Nat)
          (hsample : sample < n) : level (first + n + n * number + sample) =
            levelOf blank white (rest.getD number false) := by
        have hnext := hheld (number + 1) (by simpa using hnumber) sample hsample
        rwa [Nat.mul_succ, ← Nat.add_assoc, Nat.add_right_comm first] at hnext
      rw [List.length_cons, points, List.map_cons, hbit, hstep, ih (by omega) hrest]

/-! ## The run-in -/

section Regular

variable {target : Target} {start : Nat} {payload : List Bool}

/-- Whether a line holds a transmission from sample `start` on, at two levels. What is in front of
the samples to examine and behind the transmission does not matter. -/
def Carries (target : Target) (level : Nat → Nat) (blank white n start : Nat)
    (payload : List Bool) : Prop :=
  ∀ index, target.sampleOffset ≤ index → index < start + n * (target.sentBits payload).length →
    level index = levelOf blank white (sentAt (target.sentBits payload) n start index)

/-- The end of a run-in that was found: the threshold is between the levels, and the position half a
bit before the end of the run-in or up to three steps earlier. -/
structure Locked (target : Target) (blank white n start late : Nat) (lock : Lock) : Prop where
  slice : (blank : Int) < lock.slice ∧ lock.slice ≤ white
  late_le : late ≤ 3
  position : lock.position + 64 * late + 128 * n = 256 * (start + n * target.criBits)

theorem paced_derive (h : target.Regular n start) : (derive target).Paced n := by
  refine ⟨h.two_le, h.criRate_pos, ?_⟩
  have hsteps : target.format.layout.oversampling = 4 := by
    rw [h.format]
    rfl
  simp only [derive, hsteps, h.rate]
  rw [Nat.mul_comm, Nat.mul_assoc]

/-- The levels of the run-in, counted from the first sample that is searched. -/
theorem level_carried (h : target.Regular n start)
    (hcarries : Carries target level blank white n start payload) {i : Nat}
    (hi : i < start - target.sampleOffset + n * target.criBits) :
    level ((derive target).sampleOffset + i) = levelOf blank white
      (sentAt (target.sentBits payload) n (start - target.sampleOffset) i) := by
  have hoffset := h.offset_le
  have hbits : n * target.criBits ≤ n * (target.sentBits payload).length := by
    apply Nat.mul_le_mul_left n
    rw [Target.length_sentBits]
    omega
  rw [← sentAt_add hoffset, sampleOffset_derive]
  exact hcarries _ (Nat.le_add_right _ _) (by omega)

/-- A slicer that was just configured finds the run-in. -/
theorem search_carried (h : target.Regular n start) (hblank : blank ≤ 103) (hwhite : 107 ≤ white)
    (hbyte : white ≤ 255) (hcarries : Carries target level blank white n start payload) :
    ∃ lock late, (derive target).search (fun _ trace => trace) level
        (derive target).layout.seed () = some (lock, ()) ∧
      Locked target blank white n start late lock := by
  have hlayout : (derive target).layout = PixelFormat.yuv420.layout := by rw [derive, h.format]
  have hsteps : (derive target).layout.oversampling = 4 := by rw [hlayout]; rfl
  have hfraction : (derive target).layout.fraction = 9 := by rw [hlayout]; rfl
  have hseed : (derive target).layout.seed = 105 * 512 := by rw [hlayout]; rfl
  have hoffset := h.offset_le
  have htwo := h.two_le
  have hcriEnd := criEnd_derive_ge h
  have hbits : target.criBits ≤ (target.sentBits payload).length := by
    rw [Target.length_sentBits]
    omega
  rw [hseed]
  -- The threshold stays between the levels, so the steps follow the bits.
  have hslice (i : Nat) (hi : i < start - target.sampleOffset + n * target.criBits) :=
    sliceAt_bounds hfraction (by omega) hbyte (fun i hi => level_carried h hcarries hi)
      (fun bit => Tracks.seed bit hblank hwhite hbyte) hi
  have hfollows := follows_highAt hsteps (fun i hi => level_carried h hcarries hi) hslice
  have hearly (number : Nat) (hnumber : number < target.criBits) :
      wordOfBits ((target.sentBits payload).take number) &&& (derive target).criMask ≠
        (derive target).cri := by
    rw [Target.take_sentBits (Nat.le_of_lt hnumber)]
    exact h.notEarly number hnumber
  obtain ⟨last, late, hlate, hlast, hcompletes, hnone⟩ :=
    exists_completesAt (paced_derive h) hfollows h.criBits_pos hbits hearly (word_criBits h)
  have hsearched : last < (derive target).searched := by
    rw [searched, hsteps, sampleOffset_derive]
    omega
  have hfound : (List.range (derive target).searched).find?
      ((derive target).completesAt ((derive target).highAt level (105 * 512))) = some last := by
    rw [List.find?_range_eq_some]
    refine ⟨hcompletes, List.mem_range.mpr hsearched, ?_⟩
    intro before hbefore
    rw [hnone before hbefore, Bool.not_false]
  refine ⟨(derive target).lockAt level (105 * 512) last, late, ?_, ?_, hlate, ?_⟩
  · rw [search_eq, hfound]
    rfl
  · simp only [lockAt, hsteps]
    exact hslice (last / 4) (by omega)
  · simp only [lockAt, positionAt, hsteps, sampleOffset_derive]
    omega

/-! ## The reception -/

section Locked

variable {lock : Lock} {late : Nat}

theorem firstBit_of_locked (h : target.Regular n start)
    (hlock : Locked target blank white n start late lock) :
    (derive target).firstBit lock + 64 * late = 256 * (start + n * target.criBits) + 128 * n := by
  have hposition := hlock.position
  rw [firstBit, phaseShift_derive h]
  omega

theorem fits_of_locked (h : target.Regular n start)
    (hlock : Locked target blank white n start late lock) :
    (derive target).fits lock = true := by
  have hend := h.end_lt
  have htwo := h.two_le
  have hfirst := firstBit_of_locked h hlock
  have hcount : (derive target).frcBits + (derive target).payloadBits =
      target.frcBits + target.payloadBits := rfl
  have hsamples : (derive target).samplesPerLine = target.samplesPerLine := rfl
  rw [Nat.add_assoc target.criBits, Nat.mul_add] at hend
  simp only [fits, step_derive h, hcount, hsamples, Bool.or_eq_true, beq_iff_eq,
    decide_eq_true_eq]
  rcases Nat.eq_zero_or_pos (target.frcBits + target.payloadBits) with hzero | hpos
  · exact Or.inl hzero
  · right
    obtain ⟨before, hbefore⟩ := Nat.exists_eq_succ_of_ne_zero (Nat.ne_of_gt hpos)
    rw [hbefore, Nat.mul_succ] at hend
    rw [hbefore, Nat.succ_sub_one, Nat.mul_comm before, Nat.mul_assoc]
    omega

/-- Some of the bits behind the run-in, read from their place on. -/
theorem map_bit_part (h : target.Regular n start) (hpayload : payload.length = target.payloadBits)
    (hcarries : Carries target level blank white n start payload)
    (hlock : Locked target blank white n start late lock) (kind : PointKind) (skip : Nat)
    (bits : List Bool) (hskip : skip + bits.length ≤ target.frcBits + target.payloadBits)
    (hbits : ∀ number < bits.length, (target.sentBits payload).getD
      (target.criBits + skip + number) false = bits.getD number false) :
    ((derive target).points level lock.slice kind bits.length
      ((derive target).firstBit lock + skip * (256 * n))).map Point.bit = bits := by
  have hposition : (derive target).firstBit lock + skip * (256 * n) + 64 * late =
      256 * (start + n * (target.criBits + skip)) + 128 * n := by
    have hfirst := firstBit_of_locked h hlock
    rw [Nat.mul_left_comm, Nat.mul_comm skip, Nat.mul_add n]
    omega
  apply map_bit_points (step_derive h) h.two_le hlock.slice hlock.late_le bits hposition
  intro number hnumber sample hsample
  have hoffset := h.offset_le
  have hless : n * (target.criBits + skip + number + 1) ≤
      n * (target.sentBits payload).length := by
    apply Nat.mul_le_mul_left n
    rw [Target.length_sentBits]
    omega
  rw [Nat.mul_succ] at hless
  rw [← hbits number hnumber, Nat.add_assoc start, ← Nat.mul_add, hcarries _ (by omega) (by omega),
    sentAt_held _ hsample]

/-- What follows the run-in is read bit by bit. -/
theorem receive_carried (h : target.Regular n start)
    (hpayload : payload.length = target.payloadBits)
    (hcarries : Carries target level blank white n start payload)
    (hlock : Locked target blank white n start late lock) :
    ∃ reception, (derive target).receive level lock = some reception ∧
      reception.payload = Payload.ofBits payload target.modulation := by
  have hfits := fits_of_locked h hlock
  have hfrc : ((derive target).frcPoints level lock).map Point.bit =
      Check.bitsOf target.frc.toNat target.frcBits := by
    have hpoints := map_bit_part h hpayload hcarries hlock .frc 0
      (Check.bitsOf target.frc.toNat target.frcBits)
    rw [Check.length_bitsOf, Nat.zero_add, Nat.add_zero, Nat.zero_mul, Nat.add_zero] at hpoints
    rw [frcPoints, if_pos hfits]
    exact hpoints (Nat.le_add_right _ _) fun number hnumber => Target.getD_sentBits_frc hnumber
  have hbits : ((derive target).payloadPoints level lock).map Point.bit = payload := by
    have hpoints := map_bit_part h hpayload hcarries hlock .payload target.frcBits payload
    rw [hpayload] at hpoints
    rw [payloadPoints, step_derive h]
    exact hpoints (Nat.le_refl _) fun number _ => Target.getD_sentBits_payload number
  have hword : wordOfBits (Check.bitsOf target.frc.toNat target.frcBits) = (derive target).frc :=
    Check.wordOfBits_bitsOf target.frc h.frcBits_le
  refine ⟨⟨(derive target).frcPoints level lock ++ (derive target).payloadPoints level lock,
    (derive target).packing.bytes (((derive target).payloadPoints level lock).map Point.bit)⟩,
    ?_, ?_⟩
  · simp only [receive, hfits, hfrc, hword, Bool.not_true, bne_self_eq_false, Bool.or_false,
      Bool.false_eq_true, if_false]
  · simp only [hbits]
    rw [← Packing.bytes_of, hpayload, derive]

end Locked

end Regular

end SlicerConfig

/-! ## The round trip -/

section RoundTrip

variable {target : Target} {n start : Nat}

namespace Slicer

theorem checkSizes_regular (h : target.Regular n start) {size : Nat} {row : ByteArray}
    {threshold : Int} (hsize : Payload.bytesFor target.payloadBits ≤ size)
    (hrow : target.samplesPerLine ≤ row.size) :
    (⟨.derive target, threshold⟩ : Slicer).checkSizes size row = .ok () := by
  have hbuffer : ¬ size < (SlicerConfig.derive target).payloadBytes :=
    Nat.not_lt.mpr hsize
  have hbytes : (SlicerConfig.derive target).rowBytes = target.samplesPerLine := by
    simp only [SlicerConfig.rowBytes, SlicerConfig.derive, h.format]
    exact Nat.mul_one _
  rw [checkSizes, if_neg hbuffer, if_neg (by rw [hbytes]; omega)]

theorem slice_carried (h : target.Regular n start) {blank white : UInt8} (hblank : blank ≤ 103)
    (hwhite : 107 ≤ white) {payload : List Bool} (hpayload : payload.length = target.payloadBits)
    {row : ByteArray} (hrow : target.samplesPerLine ≤ row.size)
    (hcarries : SlicerConfig.Carries target (target.format.layout.level row) blank.toNat
      white.toNat n start payload) {size : Nat} (buffer : Vector UInt8 size)
    (hsize : Payload.bytesFor target.payloadBits ≤ size) :
    ∃ next filled, (⟨.derive target, (SlicerConfig.derive target).layout.seed⟩ : Slicer).slice
        buffer row = .ok (some (next, filled)) ∧
      filled.toList = Payload.ofBits payload target.modulation ++
        buffer.toList.drop (Payload.bytesFor target.payloadBits) := by
  have hbyte : white.toNat ≤ 255 := by
    have := white.toNat_lt
    omega
  obtain ⟨lock, late, hsearch, hlock⟩ := SlicerConfig.search_carried h
    (UInt8.le_iff_toNat_le.mp hblank) (UInt8.le_iff_toNat_le.mp hwhite) hbyte hcarries
  obtain ⟨reception, hreceive, hbits⟩ :=
    SlicerConfig.receive_carried h hpayload hcarries hlock
  have hlength : reception.payload.length = Payload.bytesFor target.payloadBits := by
    rw [hbits, Payload.ofBits, Payload.length_pack, hpayload]
  refine ⟨⟨.derive target, lock.threshold⟩, overwrite reception.payload buffer, ?_, ?_⟩
  · have hfound : (⟨.derive target, (SlicerConfig.derive target).layout.seed⟩ : Slicer).receive
        (target.format.layout.level row) =
          some (⟨.derive target, lock.threshold⟩, reception) := by
      simp only [receive, hsearch, hreceive, Option.bind_eq_bind, Option.bind_some]
      rfl
    rw [slice, checkSizes_regular h hsize hrow]
    simp only [show (SlicerConfig.derive target).layout = target.format.layout from rfl] at hfound ⊢
    rw [hfound]
    rfl
  · rw [toList_overwrite (by omega), hlength, hbits]

end Slicer

namespace Receiver

/-- Every target whose bits take the same whole number of samples can be configured, with exact
steps from bit to bit, and then every payload that is sent on a line is received. -/
theorem slice_configure_carried (h : target.Regular n start) (before : Receiver) :
    ∃ slicer, before.configure target = (⟨some slicer, false⟩, .ok ()) ∧
      slicer.config.step = 256 * n ∧ slicer.config.phaseShift = 256 * n ∧
        ∀ (blank white : UInt8) (payload : List Bool) (row : ByteArray) (size : Nat)
          (buffer : Vector UInt8 size), blank ≤ 103 → 107 ≤ white →
          payload.length = target.payloadBits → target.samplesPerLine ≤ row.size →
          Payload.bytesFor target.payloadBits ≤ size →
          SlicerConfig.Carries target (target.format.layout.level row) blank.toNat white.toNat
            n start payload →
          ∃ after filled, (⟨some slicer, false⟩ : Receiver).slice buffer row =
              (after, filled, .ok true) ∧
            filled.toList = Payload.ofBits payload target.modulation ++
              buffer.toList.drop (Payload.bytesFor target.payloadBits) := by
  refine ⟨⟨.derive target, (SlicerConfig.derive target).layout.seed⟩, ?_,
    SlicerConfig.step_derive h, SlicerConfig.phaseShift_derive h, ?_⟩
  · simp only [configure, Slicer.ofTarget, SlicerConfig.ofTarget_regular h]
  · intro blank white payload row size buffer hblank hwhite hpayload hrow hsize hcarries
    obtain ⟨next, filled, hslice, hfilled⟩ :=
      Slicer.slice_carried h hblank hwhite hpayload hrow hcarries buffer hsize
    refine ⟨⟨some next, false⟩, filled, ?_, hfilled⟩
    simp only [slice, hslice]

/-- Three bits of run-in, one of framing code and nine of payload, two samples each. -/
def shortTarget : Target where
  format := .yuv420
  rate := 2000000
  sampleOffset := 1
  samplesPerLine := 40
  cri := 0b101
  criMask := 0b111
  criBits := 3
  criRate := 1000000
  criEnd := 40
  frc := 1
  frcBits := 1
  payloadBits := 9
  payloadRate := 1000000
  modulation := .nrzMsb

theorem regular_shortTarget : shortTarget.Regular 2 4 := by
  constructor <;> decide

def shortPayload : List Bool := [true, false, false, true, true, true, false, true, true]

def shortRow : ByteArray :=
  ⟨((List.range 40).map fun index =>
    if sentAt (shortTarget.sentBits shortPayload) 2 4 index then (200 : UInt8) else 16).toArray⟩

theorem slice_configure_carried_shortRow :
    ∃ slicer after filled,
      empty.configure shortTarget = (⟨some slicer, false⟩, .ok ()) ∧
        (⟨some slicer, false⟩ : Receiver).slice (Vector.replicate 3 (0xEE : UInt8)) shortRow =
          (after, filled, .ok true) ∧ filled.toList = [0x9D, 0x01, 0xEE] := by
  obtain ⟨slicer, hconfigure, _, _, hslice⟩ := slice_configure_carried regular_shortTarget empty
  obtain ⟨after, filled, hfound, hfilled⟩ :=
    hslice 16 200 shortPayload shortRow 3 (Vector.replicate 3 0xEE) (by decide) (by decide) rfl
      (by decide) (by decide) (by unfold SlicerConfig.Carries; decide)
  refine ⟨slicer, after, filled, hconfigure, hfound, hfilled.trans ?_⟩
  decide +kernel

end Receiver

end RoundTrip

end Blanking
