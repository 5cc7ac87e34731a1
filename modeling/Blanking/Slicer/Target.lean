import Blanking.Sampling.Permit

/-! # What a slicer looks for

The shape of a sampled line, and the signal to find on it. -/

namespace Blanking

/-- A line and the signal to find on it. -/
structure Target where
  format : PixelFormat
  /-- Samples per second. -/
  rate : Nat
  /-- First sample to examine. -/
  sampleOffset : Nat
  samplesPerLine : Nat
  /-- Clock run-in, the last bit sent in bit 0. -/
  cri : UInt32
  /-- The bits of the clock run-in that have to match. -/
  criMask : UInt32
  criBits : Nat
  criRate : Nat
  /-- First sample at which the run-in is not searched any more. -/
  criEnd : Nat
  /-- Framing code, the last bit sent in bit 0. -/
  frc : UInt32
  frcBits : Nat
  payloadBits : Nat
  /-- Bits per second of framing code and payload. -/
  payloadRate : Nat
  modulation : Modulation
deriving DecidableEq, Repr

namespace Target

/-- Seconds before the expected start of the run-in at which the search begins. -/
def lead : Float := 1e-6

/-- Seconds after the expected end of the run-in at which the search stops. -/
def trail : Float := 1e-6

/-- The samples in which the clock run-in of a service is searched: the expected ones where its
place on the line is known, or else all. -/
def window (t : Transmission) (s : Sampling) (strictness : Strictness) : Nat × Nat :=
  if s.offset = 0 || strictness = .loose then (0, s.samplesPerLine)
  else
    let rate := Double.ofNat s.rate
    let start := t.start - Double.ofNat s.offset / rate
    let length := Double.ofNat t.criBits / Double.ofNat t.criRate
    (Double.floor ((start - lead) * rate),
      min (Double.ceil ((start + length + trail) * rate)) s.samplesPerLine)

/-- A service on the lines of a sampling. -/
def ofService (t : Transmission) (s : Sampling) (strictness : Strictness) : Target where
  format := s.format
  rate := s.rate
  sampleOffset := (window t s strictness).1
  samplesPerLine := s.samplesPerLine
  cri := t.cri
  criMask := t.criMask
  criBits := t.criBits
  criRate := t.criRate
  criEnd := (window t s strictness).2
  frc := t.frc
  frcBits := t.frcBits
  payloadBits := t.payload
  payloadRate := t.bitRate
  modulation := t.modulation

end Target

end Blanking
