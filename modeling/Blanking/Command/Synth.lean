import Blanking.Command.Run
import Blanking.Payload.Check

/-! # Test data

Each service is put on one line per field, the first sampled line of its range that is still
free, and its payload changes from one field pair to the next. -/

namespace Blanking.Synth

/-- Lines that are taken, in the order in which they were. -/
abbrev Lines := List (Service × Nat)

/-- The sampled lines of a field that may carry a service. -/
def lineRange (s : Sampling) (t : Transmission) (field : Field) : List Nat :=
  let first := max (t.first.on field) (s.start.on field)
  let last := min (t.last.on field) (s.lastLine field)
  (List.range (last + 1 - first)).map (first + ·)

/-- What came of a service on a field. -/
inductive Assignment where
  | line (line : Nat)
  | unknownLines
  | noFreeLine
  /-- The field does not carry the service, or was not sampled. -/
  | nothing
deriving DecidableEq, Repr

/-- Looks for a line of a field for a service. -/
def assignOn (s : Sampling) (taken : Lines) (service : Service) (field : Field) : Assignment :=
  let t := service.transmission
  if !t.onField field || s.count.on field == 0 then .nothing
  else if s.start.on field = 0 then .unknownLines
  else
    match (lineRange s t field).find? fun line => taken.all (·.2 != line) with
    | some line => .line line
    | none => .noFreeLine

/-- What is reported about a service on a field. -/
def Assignment.entries (service : Service) (field : Field) : Assignment → List Log.Entry
  | .unknownLines =>
      [.warn s!"Line numbers of field {field.number} unknown, skipping {service.label}"]
  | .noFreeLine => [.warn s!"No free line for {service.label} in field {field.number}"]
  | .line _ | .nothing => []

/-- Lines for services on fields, one after the other. -/
def assignAll (s : Sampling) : Lines → List (Service × Field) → Lines × List Log.Entry
  | taken, [] => (taken, [])
  | taken, (service, field) :: rest =>
      let assignment := assignOn s taken service field
      let taken := match assignment with
        | .line line => taken ++ [(service, line)]
        | _ => taken
      let (lines, entries) := assignAll s taken rest
      (lines, assignment.entries service field ++ entries)

/-- Every service of a set on each field, in the order in which lines are looked for. -/
def places (services : ServiceSet) : List (Service × Field) :=
  services.toList.flatMap fun service => Field.all.map fun field => (service, field)

/-- Lines for the services of a set in rising order, and what is reported on the way. -/
def assignLines (s : Sampling) (services : ServiceSet) : Lines × List Log.Entry :=
  let (lines, entries) := assignAll s [] (places services)
  (lines.mergeSort (fun a b => a.2 ≤ b.2), entries)

/-- Aspect ratio groups with odd parity. -/
def wssGroups : List Nat := [0x08, 0x0E, 0x01, 0x07, 0x0B, 0x0D]

/-- The payload of a service in a field pair. It passes the check of its service. -/
def testPayload (service : Service) (frame : Nat) : List UInt8 :=
  match service with
  | .wss625 =>
      [UInt8.ofNat (wssGroups[frame % wssGroups.length]?.getD 0), UInt8.ofNat (frame % 64)]
  | .wssCpr1204 => Check.cpr1204Encode frame
  | _ =>
      let bytes := service.transmission.payloadBytes
      let tail := service.transmission.payload % 8
      (List.range bytes).map fun i =>
        let value := (frame * 31 + i * 7) % 256
        UInt8.ofNat (if tail ≠ 0 && i + 1 == bytes then value % (1 <<< tail) else value)

def recordsOf (lines : Lines) (frame : Nat) : List Record :=
  lines.map fun (service, line) => .ofPayload service line (testPayload service frame)

/-- The levels of test data. -/
def blank : UInt8 := 16

def white : UInt8 := 200

/-- Draws `left` field pairs up to number `frames`, behind what is already drawn. -/
def drawFrames (s : Sampling) (lines : Lines) (frames : Nat) :
    (left : Nat) → ByteArray → Except RenderError ByteArray
  | 0, drawn => .ok drawn
  | left + 1, drawn =>
      let zeros : ByteArray := ⟨Array.replicate s.frameSize 0⟩
      match s.render zeros blank white (recordsOf lines (frames - (left + 1))) with
      | .ok raw => drawFrames s lines frames left (drawn ++ raw)
      | .error cause => .error cause

def linesText (lines : Lines) : String :=
  ", ".intercalate (lines.map fun (service, line) => s!"{service.name} on {line}")

def run (files : Files) (common : CommonOptions) (path : String) (options : SamplingOptions)
    (services : String) (frames : Nat) : Run Unit := do
  let sampling ← Run.sampling files options
  let strictness := Strictness.ofLevel options.strictness
  let requested ← Run.ofExcept .unknownService (ServiceSet.parse services)
  let selected ← selectServices sampling requested strictness common.strict
  let (lines, entries) := assignLines sampling selected
  Run.log entries
  Run.log [.info s!"Writing {frames} field pairs to {path}: {linesText lines}"]
  Run.checkOutput files path
  let _ ← Run.ofWords sampling.frameSize?
  Run.output path (← Run.ofExcept .render (drawFrames sampling lines frames frames ByteArray.empty))

end Blanking.Synth
