import Blanking.Slicer.Config

/-! # Search for the clock run-in

Each sample is divided into steps between which the signal is a straight line. A step is high or
low by comparison with a threshold, which follows the signal wherever that changes. A clock that
starts half a bit after every change of the steps counts out the bits of the run-in; the search
ends at the first bit that completes the expected pattern.

Positions are unbounded numbers here and in what is built on the search. `InWords.search` forms the
same positions in machine words, and `SlicerConfig.PositionsFit` tells when all of them are. -/

namespace Blanking

/-- The part of a transmission that a decision belongs to. -/
inductive PointKind where
  | cri
  | frc
  | payload
deriving DecidableEq, Repr

/-- The decision about one bit. -/
structure Point where
  kind : PointKind
  /-- Position on the line, in 256th parts of a sample. -/
  position : Nat
  /-- Signal level, times 256. -/
  level : Nat
  /-- The level that it is compared with, times 256. -/
  threshold : Int
deriving DecidableEq, Repr

/-- What the decision was. -/
def Point.bit (point : Point) : Bool := point.threshold ≤ point.level

/-- State of the clock that counts out the bits of the run-in. -/
structure Clock where
  phase : Nat
  /-- Whether the last step was high. -/
  high : Bool
  /-- The last bits, the latest one in bit 0. -/
  word : UInt32
deriving DecidableEq, Repr

/-- The clock before the first step. -/
def Clock.start : Clock := ⟨0, false, 0⟩

/-- The end of a clock run-in. -/
structure Lock where
  /-- Position of its last bit. -/
  position : Nat
  /-- The level above which a bit is set. -/
  slice : Int
  /-- The threshold that the signal has led to, as a fixed point number. -/
  threshold : Int
deriving DecidableEq, Repr

/-- What the steps of one sample led to. -/
inductive Progress (ρ : Type) where
  | locked (position : Nat) (trace : ρ)
  | searching (clock : Clock) (trace : ρ)

/-- Appends a bit to a word of 32 bits. -/
def shiftIn (word : UInt32) (bit : Bool) : UInt32 := word <<< 1 ||| (if bit then 1 else 0)

namespace SlicerConfig

variable {ρ : Type}

/-- The last `left` steps of a sample, which lead from its level to that of the next one. -/
@[specialize]
def searchSteps (c : SlicerConfig) (record : Point → ρ → ρ) (index now next : Nat)
    (slice : Int) : (left : Nat) → Clock → ρ → Progress ρ
  | 0, clock, trace => .searching clock trace
  | left + 1, clock, trace =>
      let steps := c.layout.oversampling
      let done := steps - (left + 1)
      let sum := now * (left + 1) + next * done
      let high : Bool := slice ≤ ((sum + steps / 2) / steps : Nat)
      if high != clock.high then
        searchSteps c record index now next slice left ⟨c.stepRate / 2, high, clock.word⟩ trace
      else if clock.phase + c.criRate < c.stepRate then
        searchSteps c record index now next slice left
          ⟨clock.phase + c.criRate, high, clock.word⟩ trace
      else
        let word := shiftIn clock.word high
        let position := index * 256 + done * 256 / steps
        let trace := record ⟨.cri, position, sum * 256 / steps, slice * 256⟩ trace
        if word &&& c.criMask == c.cri then .locked position trace
        else
          searchSteps c record index now next slice left
            ⟨clock.phase + c.criRate - c.stepRate, high, word⟩ trace

/-- The level at which a threshold cuts the signal. -/
def sliceLevel (c : SlicerConfig) (threshold : Int) : Int := threshold >>> c.layout.fraction

/-- Moves a threshold towards the level of a sample, the more the signal changes there. -/
def adapt (c : SlicerConfig) (threshold : Int) (now next : Nat) : Int :=
  threshold + ((now : Int) - c.sliceLevel threshold) * ((next : Int) - now).natAbs

/-- Searches `left` samples from sample `index` on. The level of the sample behind the last one
is needed too. -/
@[specialize]
def searchSamples (c : SlicerConfig) (record : Point → ρ → ρ) (level : Nat → Nat) :
    (left index : Nat) → (threshold : Int) → Clock → ρ → Option (Lock × ρ)
  | 0, _, _, _, _ => none
  | left + 1, index, threshold, clock, trace =>
      let now := level index
      let next := level (index + 1)
      let slice := c.sliceLevel threshold
      let adapted := c.adapt threshold now next
      match c.searchSteps record index now next slice c.layout.oversampling clock trace with
      | .locked position trace => some (⟨position, slice, adapted⟩, trace)
      | .searching clock trace =>
          searchSamples c record level left (index + 1) adapted clock trace

/-- Searches a line for the clock run-in, with a record of each bit on the way. -/
@[specialize]
def search (c : SlicerConfig) (record : Point → ρ → ρ) (level : Nat → Nat) (threshold : Int)
    (trace : ρ) : Option (Lock × ρ) :=
  c.searchSamples record level (c.criEnd - c.sampleOffset) c.sampleOffset threshold .start trace

end SlicerConfig

end Blanking
