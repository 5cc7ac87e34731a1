import Blanking.Number.Word
import Blanking.Sampling.Permit

/-! # Sampling parameters in machine words

The numbers of a sampling are words of 32 bits, and so are sums of them; a field pair has as many
bytes as a word of 64 bits can tell. Descriptions with larger sums have no total, no size or no last
line, and cannot be checked where those are needed. -/

namespace Blanking.Sampling

/-- Lines of both fields. -/
def totalLines? (s : Sampling) : Option Nat := below? wordLimit (s.count.first + s.count.second)

/-- Bytes of a field pair. -/
def frameSize? (s : Sampling) : Option Nat := do
  let samples ← below? wordLimit s.samplesPerLine
  let lines ← s.totalLines?
  below? longLimit (samples * s.format.bytesPerSample * lines)

/-- The number of the last sampled line of a field, found from that of the line behind it. -/
def lastLine? (s : Sampling) (field : Field) : Option Nat :=
  (below? wordLimit (s.start.on field + s.count.on field)).map (· - 1)

/-- Checks that known lines of a field belong to it. -/
def validateField? (s : Sampling) (scanning : Scanning) (field : Field) :
    Checked SamplingError Unit :=
  if s.start.on field = 0 || s.count.on field = 0 then pure ()
  else do
    let last ← s.lastLine? field
    if s.start.on field < (scanning.fieldLines.on field).1 ||
        (scanning.fieldLines.on field).2 < last then
      throw (.fieldRange field (s.start.on field) last scanning)
    else pure ()

/-- Checks that the description is consistent. -/
def validate? (s : Sampling) : Checked SamplingError Unit :=
  if s.rate = 0 then throw .zeroRate
  else if s.samplesPerLine = 0 then throw .zeroSamplesPerLine
  else if s.count.first = 0 && s.count.second = 0 then throw .noLines
  else
    match s.scanning with
    | none => throw (.ambiguousStandards s.standards)
    | some scanning => do
        s.validateField? scanning .first
        s.validateField? scanning .second
        s.validateLayout

/-- Checks that the samples are dense enough. -/
def permitRate? (s : Sampling) (t : Transmission) : Checked PermitError Unit := do
  let _ ← below? wordLimit (requiredRate t)
  s.permitRate t

/-- Checks that the sampled part of a line takes in the signal, where its place is known. -/
def permitPlace? (s : Sampling) (t : Transmission) (strictness : Strictness) :
    Checked PermitError Unit :=
  if s.offset = 0 || strictness = .loose then pure ()
  else do
    let _ ← below? wordLimit (s.offset + s.samplesPerLine)
    s.permitPlace t strictness

/-- Checks that the lines of a field that carry the service were sampled. -/
def permitField? (s : Sampling) (t : Transmission) (strictness : Strictness) (field : Field) :
    Checked PermitError Unit :=
  if !t.onField field || s.count.on field = 0 || s.start.on field = 0 then
    s.permitField t strictness field
  else do
    let _ ← s.lastLine? field
    s.permitField t strictness field

/-- Decides whether a service can be decoded from the sampled lines. -/
def permit? (s : Sampling) (t : Transmission) (strictness : Strictness) :
    Checked PermitError Unit := do
  s.permitStandard t
  s.permitLineNumbers t
  s.permitRate? t
  s.permitDuration t strictness
  s.permitPlace? t strictness
  s.permitFieldOrder t
  s.permitField? t strictness .first
  s.permitField? t strictness .second

end Blanking.Sampling
