import Blanking.Number.Word
import Blanking.Slicer.Basic

/-! # Slicing with positions in machine words

The position of a decision is a word of 32 bits, in 256th parts of a sample. It is formed for each
bit of the run-in and, behind that, for each further bit and for the place behind the last one. -/

namespace Blanking.InWords

/-- Position of a part of a sample. Of the number of the sample only its lowest 32 bits count. -/
def position? (index part : Nat) : Option Nat :=
  below? wordLimit (index % wordLimit * 256 + part)

/-- The last `left` steps of a sample, which lead from its level to that of the next one. -/
def searchSteps (c : SlicerConfig) (index now next : Nat) (slice : Int) :
    (left : Nat) → Clock → Option (Progress Unit)
  | 0, clock => some (.searching clock ())
  | left + 1, clock =>
      let steps := c.layout.oversampling
      let done := steps - (left + 1)
      let sum := now * (left + 1) + next * done
      let high : Bool := slice ≤ ((sum + steps / 2) / steps : Nat)
      if high != clock.high then
        searchSteps c index now next slice left ⟨c.stepRate / 2, high, clock.word⟩
      else if clock.phase + c.criRate < c.stepRate then
        searchSteps c index now next slice left ⟨clock.phase + c.criRate, high, clock.word⟩
      else
        let word := shiftIn clock.word high
        match position? index (done * 256 / steps) with
        | none => none
        | some position =>
            if word &&& c.criMask == c.cri then some (.locked position ())
            else
              searchSteps c index now next slice left
                ⟨clock.phase + c.criRate - c.stepRate, high, word⟩

/-- Searches `left` samples from sample `index` on. -/
def searchSamples (c : SlicerConfig) (level : Nat → Nat) :
    (left index : Nat) → (threshold : Int) → Clock → Option (Option Lock)
  | 0, _, _, _ => some none
  | left + 1, index, threshold, clock =>
      let now := level index
      let next := level (index + 1)
      let slice := c.sliceLevel threshold
      let adapted := c.adapt threshold now next
      match searchSteps c index now next slice c.layout.oversampling clock with
      | none => none
      | some (.locked position ()) => some (some ⟨position, slice, adapted⟩)
      | some (.searching clock ()) => searchSamples c level left (index + 1) adapted clock

/-- Searches a line for the clock run-in. -/
def search (c : SlicerConfig) (level : Nat → Nat) (threshold : Int) : Option (Option Lock) :=
  searchSamples c level (c.criEnd - c.sampleOffset) c.sampleOffset threshold .start

/-- Position of the last bit behind the run-in, or of the first one if there are none. -/
def lastBit? (c : SlicerConfig) (first : Nat) : Option Nat :=
  if c.frcBits + c.payloadBits = 0 then some first
  else do
    let length ← below? wordLimit ((c.frcBits + c.payloadBits - 1) * c.step)
    below? wordLimit (first + length)

/-- Reads what follows a clock run-in, if it fits on the line behind the right framing code. All
positions up to one are words if that one is. -/
def receive (c : SlicerConfig) (level : Nat → Nat) (lock : Lock) : Option (Option Reception) := do
  let first ← below? wordLimit (c.firstBit lock)
  let _ ← lastBit? c first
  if !c.fits lock then some none
  else
    let behind ← below? wordLimit (first + c.frcBits * c.step)
    if wordOfBits ((c.frcPoints level lock).map Point.bit) != c.frc then some none
    else
      let _ ← below? wordLimit (behind + c.payloadBits * c.step)
      some (c.receive level lock)

/-- Looks for the transmission of a slicer among the levels of a line. -/
def receiveLine (s : Slicer) (level : Nat → Nat) : Option (Option (Slicer × Reception)) := do
  match ← search s.config level s.threshold with
  | none => some none
  | some lock =>
      let found ← receive s.config level lock
      some (found.map fun reception => ({ s with threshold := lock.threshold }, reception))

/-- Looks for the transmission of a slicer on a line and puts its payload in front of a buffer. -/
def slice {size : Nat} (s : Slicer) (buffer : Vector UInt8 size) (row : ByteArray) :
    Checked SliceError (Option (Slicer × Vector UInt8 size)) := do
  s.checkSizes size row
  let found ← receiveLine s (s.config.layout.level row)
  return found.map fun (slicer, reception) => (slicer, overwrite reception.payload buffer)

/-- Slices a line with what is in a place: whether the transmission was found, and the buffer
afterwards. -/
def sliceWith {size : Nat} (r : Receiver) (buffer : Vector UInt8 size) (row : ByteArray) :
    Option (Receiver × Vector UInt8 size × Except SliceError Bool) :=
  match r.slicer with
  | none => some ({ r with warned := true }, buffer, .ok false)
  | some slicer =>
      match (slice slicer buffer row).run with
      | none => none
      | some (.error cause) => some (r, buffer, .error cause)
      | some (.ok none) => some (r, buffer, .ok false)
      | some (.ok (some (slicer, buffer))) =>
          some ({ r with slicer := some slicer }, buffer, .ok true)

end Blanking.InWords

namespace Blanking.SlicerConfig

/-- Whether all positions that a slicer can come to are words, wherever on the line it finds a
run-in. -/
def PositionsFit (c : SlicerConfig) : Prop :=
  c.criEnd * 256 + c.phaseShift + (c.frcBits + c.payloadBits) * c.step < wordLimit

instance (c : SlicerConfig) : Decidable c.PositionsFit := Nat.decLt _ _

end Blanking.SlicerConfig
