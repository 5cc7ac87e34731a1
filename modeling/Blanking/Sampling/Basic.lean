import Blanking.Field
import Blanking.Sample.Format
import Blanking.Standard

/-! # Sampling parameters

How the lines of a field pair were sampled and laid out in a buffer, and when such a
description is consistent. Totals and last lines are unbounded numbers here. Whatever needs them
as machine words takes `totalLines?`, `frameSize?`, `lastLine?` and `validate?`, which have no
result where a word is too small. -/

namespace Blanking

/-- How a field pair was sampled. -/
structure Sampling where
  standards : StandardSet
  format : PixelFormat
  /-- Samples per second. -/
  rate : Nat
  /-- Samples from the start of a line to its first sample, zero if unknown. -/
  offset : Nat
  samplesPerLine : Nat
  /-- Number of the first sampled line of each field, zero if unknown. -/
  start : PerField Nat
  /-- Sampled lines of each field. -/
  count : PerField Nat
  /-- Whether the lines of both fields alternate in the buffer; the first field comes first in
  any case. -/
  interlaced : Bool
  /-- Whether the first field of the buffer is always the first field of a frame. -/
  synchronous : Bool
deriving DecidableEq, Repr

/-- Why a description of the sampling is refused. -/
inductive SamplingError where
  | unknownFormat (name : String)
  | zeroRate
  | zeroSamplesPerLine
  | noLines
  | ambiguousStandards (standards : StandardSet)
  | fieldRange (field : Field) (start last : Nat) (scanning : Scanning)
  | unequalCounts (first second : Nat)
  | noServices
deriving DecidableEq, Repr

namespace SamplingError

def message : SamplingError → String
  | .unknownFormat name => s!"Unknown pixel format: {name}"
  | .zeroRate => "Sampling rate must not be zero"
  | .zeroSamplesPerLine => "Samples per line must not be zero"
  | .noLines => "No lines to sample, both field counts are zero"
  | .ambiguousStandards standards =>
      s!"Video standard set {standards.display} is empty or mixes 525 and 625 line standards"
  | .fieldRange field start last scanning =>
      s!"Field {field.index} lines {start}..{last} out of range for {scanning.lines} line scanning"
  | .unequalCounts first second =>
      s!"Interlaced sampling requires equal non-zero field counts, got {first} and {second}"
  | .noServices => "None of the requested services can be sampled"

end SamplingError

def Scanning.fieldLines : Scanning → PerField (Nat × Nat)
  | .lines525 => ⟨(1, 262), (263, 525)⟩
  | .lines625 => ⟨(1, 311), (312, 625)⟩

namespace Sampling

/-- Sampling of 625 lines at 27 MHz that takes in Teletext, VPS, wide screen signalling and
captions. -/
def preset625 : Sampling where
  standards := .lines625
  format := .yuv420
  rate := 27000000
  offset := 256
  samplesPerLine := 1440
  start := ⟨6, 318⟩
  count := ⟨18, 18⟩
  interlaced := false
  synchronous := true

/-- Sampling of 525 lines at 27 MHz that takes in Teletext, captions and wide screen
signalling. -/
def preset525 : Sampling where
  standards := .lines525
  format := .yuv420
  rate := 27000000
  offset := 256
  samplesPerLine := 1440
  start := ⟨10, 272⟩
  count := ⟨12, 13⟩
  interlaced := false
  synchronous := true

def bytesPerLine (s : Sampling) : Nat := s.samplesPerLine * s.format.bytesPerSample

/-- Lines of both fields, however many. -/
def totalLines (s : Sampling) : Nat := s.count.first + s.count.second

/-- Bytes of a field pair, however many. -/
def frameSize (s : Sampling) : Nat := s.bytesPerLine * s.totalLines

def scanning (s : Sampling) : Option Scanning := s.standards.scanning

/-- Position among all sampled lines of the first line of a field. -/
def base (s : Sampling) : Field → Nat
  | .first => 0
  | .second => s.count.first

/-- Position among all sampled lines, those of the first field in front. -/
def position (s : Sampling) (field : Field) (index : Nat) : Nat := s.base field + index

/-- The row of the buffer that holds a line of a field. -/
def row (s : Sampling) (field : Field) (index : Nat) : Nat :=
  if s.interlaced then index * 2 + field.index else s.position field index

/-- The number of a line of a field, zero if it is unknown. -/
def lineNumber (s : Sampling) (field : Field) (index : Nat) : Nat :=
  if s.synchronous && 0 < s.start.on field then s.start.on field + index else 0

/-- The number of the last sampled line of a field, if the field has lines of known numbers. -/
def lastLine (s : Sampling) (field : Field) : Nat := s.start.on field + s.count.on field - 1

/-- Where the line of this number was sampled. -/
def locate? (s : Sampling) (line : Nat) : Option (Field × Nat) :=
  (Field.all.find? fun field =>
    0 < s.start.on field && s.start.on field ≤ line &&
      line < s.start.on field + s.count.on field).map
    fun field => (field, line - s.start.on field)

/-- Checks that known lines of a field belong to it. -/
def validateField (s : Sampling) (scanning : Scanning) (field : Field) :
    Except SamplingError Unit :=
  if s.start.on field = 0 || s.count.on field = 0 then .ok ()
  else if s.start.on field < (scanning.fieldLines.on field).1 ||
      (scanning.fieldLines.on field).2 < s.lastLine field then
    .error (.fieldRange field (s.start.on field) (s.lastLine field) scanning)
  else .ok ()

/-- Checks that the fields can alternate if they are said to. -/
def validateLayout (s : Sampling) : Except SamplingError Unit :=
  if s.interlaced && (s.count.first != s.count.second || s.count.first == 0) then
    .error (.unequalCounts s.count.first s.count.second)
  else .ok ()

/-- Checks that the description is consistent. -/
def validate (s : Sampling) : Except SamplingError Unit :=
  if s.rate = 0 then .error .zeroRate
  else if s.samplesPerLine = 0 then .error .zeroSamplesPerLine
  else if s.count.first = 0 && s.count.second = 0 then .error .noLines
  else
    match s.scanning with
    | none => .error (.ambiguousStandards s.standards)
    | some scanning => do
        s.validateField scanning .first
        s.validateField scanning .second
        s.validateLayout

/-- Whether the description is consistent. -/
def Valid (s : Sampling) : Prop := s.validate = .ok ()

end Sampling

end Blanking
