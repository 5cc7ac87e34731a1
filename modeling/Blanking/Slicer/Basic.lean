import Blanking.Log
import Blanking.Sample.Level
import Blanking.Slicer.Data

/-! # Slicers

A slicer finds one kind of transmission on single lines. Its threshold follows the signal and is
kept from one line to the next, but only over lines on which the transmission was found. -/

namespace Blanking

/-- Why a line is not searched at all. -/
inductive SliceError where
  | bufferTooSmall (needed available : Nat)
  | rowTooShort (needed available : Nat)
  | pointsTooSmall (needed available : Nat)
  | pointsUnsupported (format : PixelFormat)
deriving DecidableEq, Repr

def SliceError.message : SliceError → String
  | .bufferTooSmall needed available =>
      s!"Output buffer too small: {available} bytes, payload needs {needed}"
  | .rowTooShort needed available =>
      s!"Sample row too short: {available} bytes, line needs {needed}"
  | .pointsTooSmall needed available =>
      s!"Point buffer too small: {available} entries, slicer records up to {needed}"
  | .pointsUnsupported format =>
      s!"Point recording is only available for yuv420, slicer is configured for {format.name}"

/-- A configured slicer. -/
structure Slicer where
  config : SlicerConfig
  /-- The adapted threshold, as a fixed point number. -/
  threshold : Int
deriving DecidableEq, Repr

namespace Slicer

/-- A slicer that has seen no line yet. -/
def ofTarget (target : Target) : Except TargetError Slicer :=
  match SlicerConfig.ofTarget target with
  | .ok config => .ok ⟨config, config.layout.seed⟩
  | .error cause => .error cause

/-- The level at which the signal is cut. -/
def sliceLevel (s : Slicer) : Int := s.config.sliceLevel s.threshold

/-- Looks for the transmission among the levels of a line. -/
def receive (s : Slicer) (level : Nat → Nat) : Option (Slicer × Reception) := do
  let (lock, _) ← s.config.search (fun _ trace => trace) level s.threshold ()
  let reception ← s.config.receive level lock
  return ({ s with threshold := lock.threshold }, reception)

/-- Looks for the transmission as `receive` does, and records the decisions since the start of
the run-in that was found, even if no transmission follows it. -/
def trace (s : Slicer) (level : Nat → Nat) : List Point × Option (Slicer × Reception) :=
  match s.config.search List.cons level s.threshold [] with
  | none => ([], none)
  | some (lock, latest) =>
      let runIn := (latest.take s.config.criBits).reverse
      match s.config.receive level lock with
      | none => (runIn ++ s.config.frcPoints level lock, none)
      | some reception =>
          (runIn ++ reception.points, some ({ s with threshold := lock.threshold }, reception))

/-- Checks that payload and line have the sizes that the slicer needs. -/
def checkSizes (s : Slicer) (buffer : Nat) (row : ByteArray) : Except SliceError Unit :=
  if buffer < s.config.payloadBytes then .error (.bufferTooSmall s.config.payloadBytes buffer)
  else if row.size < s.config.rowBytes then .error (.rowTooShort s.config.rowBytes row.size)
  else .ok ()

/-- Checks that the decisions about a transmission can be recorded. -/
def checkPoints (s : Slicer) (points : Nat) : Except SliceError Unit :=
  if s.config.format ≠ .yuv420 then .error (.pointsUnsupported s.config.format)
  else if points < s.config.pointCount then .error (.pointsTooSmall s.config.pointCount points)
  else .ok ()

/-- Looks for the transmission on a line and puts its payload in front of a buffer. -/
def slice {size : Nat} (s : Slicer) (buffer : Vector UInt8 size) (row : ByteArray) :
    Except SliceError (Option (Slicer × Vector UInt8 size)) :=
  match s.checkSizes size row with
  | .error cause => .error cause
  | .ok () =>
      .ok ((s.receive (s.config.layout.level row)).map fun (slicer, reception) =>
        (slicer, overwrite reception.payload buffer))

/-- Slices a line as `slice` does, and puts the recorded decisions in front of a second buffer.
If the transmission was found, their number is the last part of the answer. -/
def slicePoints {size count : Nat} (s : Slicer) (buffer : Vector UInt8 size)
    (points : Vector Point count) (row : ByteArray) :
    Except SliceError (Vector Point count × Option (Slicer × Vector UInt8 size × Nat)) :=
  match s.checkPoints count with
  | .error cause => .error cause
  | .ok () =>
      match s.checkSizes size row with
      | .error cause => .error cause
      | .ok () =>
          let (recorded, found) := s.trace (s.config.layout.level row)
          .ok (overwrite recorded points, found.map fun (slicer, reception) =>
            (slicer, overwrite reception.payload buffer, recorded.length))

end Slicer

/-- A place for a slicer, which may be empty. No line matches while it is. -/
structure Receiver where
  slicer : Option Slicer
  /-- Whether the use of an empty place was reported. -/
  warned : Bool
deriving DecidableEq, Repr

namespace Receiver

def empty : Receiver := ⟨none, false⟩

/-- A place with a slicer for a target. -/
def ofTarget (target : Target) : Except TargetError Receiver :=
  (Slicer.ofTarget target).map fun slicer => ⟨some slicer, false⟩

/-- Puts a slicer for another target in place. Without one for that target it is empty. -/
def configure (_ : Receiver) (target : Target) : Receiver × Except TargetError Unit :=
  match Slicer.ofTarget target with
  | .ok slicer => (⟨some slicer, false⟩, .ok ())
  | .error cause => (empty, .error cause)

def isConfigured (r : Receiver) : Bool := r.slicer.isSome

def payloadBytes (r : Receiver) : Nat := (r.slicer.map (·.config.payloadBytes)).getD 0

/-- The level at which the signal is cut. -/
def sliceLevel (r : Receiver) : Int := (r.slicer.map Slicer.sliceLevel).getD 0

/-- Slices a line: whether the transmission was found, and the buffer afterwards. -/
def slice {size : Nat} (r : Receiver) (buffer : Vector UInt8 size) (row : ByteArray) :
    Receiver × Vector UInt8 size × Except SliceError Bool :=
  match r.slicer with
  | none => ({ r with warned := true }, buffer, .ok false)
  | some slicer =>
      match slicer.slice buffer row with
      | .error cause => (r, buffer, .error cause)
      | .ok none => (r, buffer, .ok false)
      | .ok (some (slicer, buffer)) => ({ r with slicer := some slicer }, buffer, .ok true)

/-- Slices a line with a record of all decisions: how many there are if the transmission was
found, and both buffers afterwards. -/
def slicePoints {size count : Nat} (r : Receiver) (buffer : Vector UInt8 size)
    (points : Vector Point count) (row : ByteArray) :
    Receiver × Vector UInt8 size × Vector Point count × Except SliceError (Option Nat) :=
  match r.slicer with
  | none => ({ r with warned := true }, buffer, points, .ok none)
  | some slicer =>
      match slicer.slicePoints buffer points row with
      | .error cause => (r, buffer, points, .error cause)
      | .ok (points, none) => (r, buffer, points, .ok none)
      | .ok (points, some (slicer, buffer, found)) =>
          ({ r with slicer := some slicer }, buffer, points, .ok (some found))

/-- What is reported when a place goes from one state to the next. -/
def warnings (before after : Receiver) : List Log.Entry :=
  if after.warned && !before.warned then
    [.warn "Bit slicer is not configured, no line will match"]
  else []

end Receiver

end Blanking
