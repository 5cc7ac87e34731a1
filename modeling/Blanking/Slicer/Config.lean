import Blanking.Record
import Blanking.Slicer.Target

/-! # Configuration of a slicer

The quantities that a slicer works with, derived once from its target. Positions on a line are
counted in 256th parts of a sample. -/

namespace Blanking

inductive RateKind where
  | cri
  | payload
deriving DecidableEq, Repr

def RateKind.name : RateKind → String
  | .cri => "CRI"
  | .payload => "Payload"

inductive PatternKind where
  | cri
  | frc
deriving DecidableEq, Repr

def PatternKind.name : PatternKind → String
  | .cri => "CRI"
  | .frc => "FRC"

/-- Why a slicer cannot look for a target. -/
inductive TargetError where
  | zeroSamplingRate
  | rateTooHigh (kind : RateKind) (rate samplingRate : Nat)
  | zeroRate (kind : RateKind)
  | tooManyBits (kind : PatternKind) (bits : Nat)
  | payloadTooLarge (bits : Nat)
  | signalTooLong (samplesPerLine sampleOffset criBits criSamples dataBits dataSamples : Nat)
deriving DecidableEq, Repr

def TargetError.message : TargetError → String
  | .zeroSamplingRate => "Sampling rate must not be zero"
  | .rateTooHigh kind rate samplingRate =>
      s!"{kind.name} rate {rate} Hz exceeds the sampling rate {samplingRate} Hz"
  | .zeroRate kind => s!"{kind.name} rate must not be zero"
  | .tooManyBits kind bits => s!"{kind.name} must not exceed 32 bits, got {bits}"
  | .payloadTooLarge bits =>
      s!"Payload of {bits} bits exceeds the {recordBytes} byte sliced buffer"
  | .signalTooLong samplesPerLine sampleOffset criBits criSamples dataBits dataSamples =>
      s!"{samplesPerLine} samples per line too small for sample offset {sampleOffset} + " ++
        s!"{criBits} CRI bits ({criSamples} samples) + {dataBits} FRC and payload bits " ++
        s!"({dataSamples} samples)"

/-- How payload bits are put together to bytes: a whole number of octets or single bits, and
either end first. -/
inductive Packing where
  | octetLsb
  | octetMsb
  | bitwiseLsb
  | bitwiseMsb
deriving DecidableEq, Repr

def Packing.of (bits : Nat) (modulation : Modulation) : Packing :=
  match bits % 8 == 0, modulation.isMsbFirst with
  | true, false => .octetLsb
  | true, true => .octetMsb
  | false, false => .bitwiseLsb
  | false, true => .bitwiseMsb

structure SlicerConfig where
  format : PixelFormat
  layout : Layout
  samplesPerLine : Nat
  sampleOffset : Nat
  /-- First sample at which the run-in is not searched any more. Framing code and payload would
  not fit behind it. -/
  criEnd : Nat
  cri : UInt32
  criMask : UInt32
  criBits : Nat
  frc : UInt32
  frcBits : Nat
  payloadBits : Nat
  payloadBytes : Nat
  packing : Packing
  /-- What every step of the search adds to the phase of the clock. -/
  criRate : Nat
  /-- The phase at which a bit of the run-in is complete. -/
  stepRate : Nat
  /-- From the centre of the last bit of the run-in to the first bit behind it. -/
  phaseShift : Nat
  /-- From one bit of framing code and payload to the next. -/
  step : Nat
deriving DecidableEq, Repr

namespace SlicerConfig

/-- Samples that a number of bits takes. -/
def samplesFor (samplingRate bits bitRate : Nat) : Nat := samplingRate * bits / bitRate

def checkRate (kind : RateKind) (rate samplingRate : Nat) : Except TargetError Unit :=
  if rate = 0 then .error (.zeroRate kind)
  else if samplingRate < rate then .error (.rateTooHigh kind rate samplingRate)
  else .ok ()

/-- Checks the length of one of the patterns of a target. -/
def checkBits (kind : PatternKind) (bits : Nat) : Except TargetError Unit :=
  if 32 < bits then .error (.tooManyBits kind bits) else .ok ()

/-- Checks that the payload fits into a record. -/
def checkPayload (target : Target) : Except TargetError Unit :=
  if recordBytes < (target.payloadBits + 7) / 8 then .error (.payloadTooLarge target.payloadBits)
  else .ok ()

def criSamples (target : Target) : Nat := samplesFor target.rate target.criBits target.criRate

/-- Bits of framing code and payload. -/
def dataBits (target : Target) : Nat := target.frcBits + target.payloadBits

def dataSamples (target : Target) : Nat :=
  samplesFor target.rate (dataBits target) target.payloadRate

/-- Checks that the signal fits on the line. -/
def checkLength (target : Target) : Except TargetError Unit :=
  if target.samplesPerLine < target.sampleOffset ||
      target.samplesPerLine - target.sampleOffset < criSamples target + dataSamples target then
    .error (.signalTooLong target.samplesPerLine target.sampleOffset target.criBits
      (criSamples target) (dataBits target) (dataSamples target))
  else .ok ()

/-- Checks that a slicer can look for a target. -/
def check (target : Target) : Except TargetError Unit := do
  if target.rate = 0 then throw .zeroSamplingRate
  checkRate .cri target.criRate target.rate
  checkRate .payload target.payloadRate target.rate
  checkBits .cri target.criBits
  checkBits .frc target.frcBits
  checkPayload target
  checkLength target

/-- The largest position that is told apart from larger ones. -/
def farthest : Nat := 0xFFFFFFFF

/-- Length of a bit in 256th parts of a sample. -/
def bitLength (samplingRate bitRate : Nat) : Float :=
  Double.ofNat samplingRate * 256 / Double.ofNat bitRate

/-- From the centre of the last bit of the run-in to the first bit behind it: to its centre, or
to that of its first half where each bit is sent in two halves. -/
def phaseShiftOf (target : Target) : Nat :=
  let half := bitLength target.rate target.criRate * 0.5
  let first := bitLength target.rate target.payloadRate
  let shift := if target.modulation.isBiphase then half + first * 0.25 else half + first * 0.5
  min (Double.round shift) farthest

/-- The working quantities for a target that passed its check. -/
def derive (target : Target) : SlicerConfig :=
  let criMask := target.criMask &&& lowBits target.criBits
  { format := target.format
    layout := target.format.layout
    samplesPerLine := target.samplesPerLine
    sampleOffset := target.sampleOffset
    criEnd := min (min target.criEnd (target.samplesPerLine - dataSamples target))
      (target.samplesPerLine - 1)
    cri := target.cri &&& criMask
    criMask := criMask
    criBits := target.criBits
    frc := target.frc &&& lowBits target.frcBits
    frcBits := target.frcBits
    payloadBits := target.payloadBits
    payloadBytes := (target.payloadBits + 7) / 8
    packing := .of target.payloadBits target.modulation
    criRate := target.criRate
    stepRate := target.rate * target.format.layout.oversampling
    phaseShift := phaseShiftOf target
    step := min (Double.round (bitLength target.rate target.payloadRate)) farthest }

/-- The working quantities for a target. -/
def ofTarget (target : Target) : Except TargetError SlicerConfig :=
  match check target with
  | .ok () => .ok (derive target)
  | .error cause => .error cause

/-- Bits that can be recorded of one transmission. -/
def pointCount (c : SlicerConfig) : Nat := c.criBits + c.frcBits + c.payloadBits

def rowBytes (c : SlicerConfig) : Nat := c.samplesPerLine * c.layout.storage.stride

end SlicerConfig

end Blanking
