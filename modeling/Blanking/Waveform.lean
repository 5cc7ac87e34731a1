import Blanking.Payload.Bits
import Blanking.Record
import Blanking.Sample.Level
import Blanking.Sampling.Basic

/-! # Waveforms

The reverse of slicing: a payload is drawn onto the samples of a line as an ideal signal of two
levels. Each sample is the mean of the signal over its time, so that edges between two samples
show as levels between the two. -/

namespace Blanking

/-- Why data cannot be drawn. -/
inductive RenderError where
  | sampling (cause : SamplingError)
  | rawTooShort (needed available : Nat)
  | rowTooShort (samples available : Nat)
  | notOneService (id : ServiceSet)
  | notSampled (service : Service) (line : Nat)
  | payload (cause : Payload.TooShort)
deriving DecidableEq, Repr

def RenderError.message : RenderError → String
  | .sampling cause => cause.message
  | .rawTooShort needed available =>
      s!"raw buffer of {available} bytes too small for {needed} byte field pair"
  | .rowTooShort samples available =>
      s!"row of {available} bytes too short for {samples} samples"
  | .notOneService id =>
      "sliced record id " ++ Hex.marked id.bits.toNat ++ " is not a single service"
  | .notSampled service line => s!"line {line} of {service.label} is not sampled"
  | .payload cause => cause.message

/-- One transmission as a function of time. -/
structure Waveform where
  cri : UInt32
  criBits : Nat
  /-- Seconds of a bit of the clock run-in. -/
  criPeriod : Float
  /-- Seconds of a bit of framing code and payload. -/
  bitPeriod : Float
  /-- Framing code and payload. -/
  data : Array Bool
  /-- Whether each bit of them is sent as itself and then as its complement. -/
  biphase : Bool
  /-- Seconds from start to end. -/
  duration : Float

namespace Waveform

def ofPayload (t : Transmission) (payload : List UInt8) : Except RenderError Waveform :=
  match Payload.toBits payload t.payload t.modulation with
  | .error cause => .error (.payload cause)
  | .ok bits =>
      let frc := (List.range t.frcBits).reverse.map t.frc.toNat.testBit
      .ok {
        cri := t.cri
        criBits := t.criBits
        criPeriod := 1 / Double.ofNat t.criRate
        bitPeriod := 1 / Double.ofNat t.bitRate
        data := (frc ++ bits).toArray
        biphase := t.modulation.isBiphase
        duration := t.duration }

/-- Whether the signal is high at a time, in seconds from the start of the clock run-in. -/
def high (w : Waveform) (time : Float) : Bool :=
  let criLength := Double.ofNat w.criBits * w.criPeriod
  if time < 0 then false
  else if time < criLength then
    w.cri.toNat.testBit (w.criBits - 1 - Double.floor (time / w.criPeriod))
  else
    let position := (time - criLength) / w.bitPeriod
    match w.data[Double.floor position]? with
    | none => false
    | some bit => if w.biphase && 0.5 ≤ Double.fraction position then !bit else bit

/-- Times at which the signal is looked at within one sample. -/
def points : Nat := 8

/-- At how many of the times within the sample around `centre` the signal is high. -/
def highPoints (w : Waveform) (rate centre : Float) : Nat :=
  ((List.range points).filter fun point =>
    w.high (centre +
      ((Double.ofNat point + 0.5) / Double.ofNat points - 0.5) / rate)).length

/-- The mean of the two levels by their share of the times within a sample, rounded to the
nearest level. -/
def mean (blank white : UInt8) (high : Nat) : UInt8 :=
  let sum : Int := blank.toNat * points + ((white.toNat : Int) - blank.toNat) * high
  UInt8.ofNat ((sum.toNat + points / 2) / points)

/-- Draws the last `left` samples of a row that the signal reaches into. -/
def drawSamples (w : Waveform) (layout : Layout) (rate start : Float) (blank white : UInt8)
    (samples : Nat) : (left : Nat) → ByteArray → ByteArray
  | 0, row => row
  | left + 1, row =>
      let index := samples - (left + 1)
      let centre := Double.ofNat index / rate - start
      let row :=
        if centre < -1 / rate || w.duration + 1 / rate < centre then row
        else layout.write row index (mean blank white (w.highPoints rate centre))
      drawSamples w layout rate start blank white samples left row

end Waveform

namespace Sampling

/-- Draws the transmission of a payload onto the samples of a line. Samples that it does not
reach keep their values. -/
def drawLine (s : Sampling) (row : ByteArray) (t : Transmission) (payload : List UInt8)
    (blank white : UInt8) : Except RenderError ByteArray :=
  if row.size < s.samplesPerLine * s.format.bytesPerSample then
    .error (.rowTooShort s.samplesPerLine row.size)
  else
    match Waveform.ofPayload t payload with
    | .error cause => .error cause
    | .ok waveform =>
        let rate := Double.ofNat s.rate
        let start := t.start - Double.ofNat s.offset / rate
        .ok (waveform.drawSamples s.format.layout rate start blank white s.samplesPerLine
          s.samplesPerLine row)

/-- Draws a record onto the row of its line. -/
def drawRecord (s : Sampling) (blank white : UInt8) (rows : Array ByteArray) (record : Record) :
    Except RenderError (Array ByteArray) :=
  match record.service? with
  | none => .error (.notOneService record.id)
  | some service =>
      match s.locate? record.line with
      | none => .error (.notSampled service record.line)
      | some (field, index) =>
          let number := s.row field index
          match s.drawLine (rows[number]?.getD ByteArray.empty) service.transmission
              record.data.toList blank white with
          | .error cause => .error cause
          | .ok row => .ok (rows.setIfInBounds number row)

/-- Draws records onto the rows of a field pair, one after the other. -/
def drawRecords (s : Sampling) (blank white : UInt8) (rows : Array ByteArray) :
    List Record → Except RenderError (Array ByteArray)
  | [] => .ok rows
  | record :: rest =>
      match s.drawRecord blank white rows record with
      | .error cause => .error cause
      | .ok rows => drawRecords s blank white rows rest

/-- The rows of a field pair without any signal. -/
def blankRows (s : Sampling) (blank : UInt8) : Array ByteArray :=
  Array.replicate s.totalLines (s.format.layout.flatRow s.samplesPerLine blank)

/-- Draws records into a buffer, whose first bytes become a field pair with these records. -/
def render (s : Sampling) (raw : ByteArray) (blank white : UInt8) (records : List Record) :
    Except RenderError ByteArray :=
  match s.validate with
  | .error cause => .error (.sampling cause)
  | .ok () =>
      if raw.size < s.frameSize then .error (.rawTooShort s.frameSize raw.size)
      else
        match s.drawRecords blank white (s.blankRows blank) records with
        | .error cause => .error cause
        | .ok rows =>
            .ok (rows.foldl (· ++ ·) ByteArray.empty ++ raw.extract s.frameSize raw.size)

end Sampling

end Blanking
