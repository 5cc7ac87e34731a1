import Blanking.Decoder.Basic
import Blanking.Sampling.Checked
import Blanking.Slicer.Checked

/-! # Decoders in machine words

The operations of a decoder with all sums, sizes and positions in machine words. One of them has no
result if any number on the way is no word. Nothing is added up to give up services, as the lines
of a consistent sampling are small numbers. -/

namespace Blanking

/-- Positions of the lines of a field that may carry a service. -/
def Sampling.candidatesOn? (s : Sampling) (t : Transmission) (field : Field) :
    Option (List Nat) :=
  if !t.onField field || s.count.on field = 0 || s.start.on field = 0 then
    some (s.candidatesOn t field)
  else (s.lastLine? field).map fun _ => s.candidatesOn t field

/-- Positions of the lines that may carry a service. -/
def Sampling.candidates? (s : Sampling) (t : Transmission) : Option (List Nat) :=
  if s.synchronous then do
    let first ← s.candidatesOn? t .first
    let second ← s.candidatesOn? t .second
    some (first ++ second)
  else some (s.candidates t)

namespace Decoder.InWords

/-- A decoder without services, for a consistent sampling. -/
def new (s : Sampling) : Checked SamplingError Decoder := do
  s.validate?
  return ofSampling s

/-! ## Services -/

/-- The patterns, or those of lines without jobs before the first service. -/
def patternsOrNew (d : Decoder) : Option (List LinePattern) :=
  if d.patterns.isEmpty then d.sampling.totalLines?.map (List.replicate · .empty)
  else some d.patterns

def addService (d : Decoder) (service : Service) (strictness : Strictness) :
    Checked AddError Decoder :=
  if d.services.contains service then pure d
  else do
    (d.sampling.permit? service.transmission strictness).adapt .notPermitted
    let (jobs, number) ← d.assign service strictness
    let patterns ← patternsOrNew d
    let positions ← d.sampling.candidates? service.transmission
    match fullLine? patterns positions number with
    | some line => throw (.lineFull service line)
    | none =>
        return { d with
          services := d.services.insert service
          jobs := jobs
          patterns := register patterns positions number }

/-- Takes on one service after the other as far as possible. -/
def addEach (d : Decoder) (strictness : Strictness) :
    List Service → Option (Decoder × List Outcome)
  | [] => some (d, [])
  | service :: rest => do
      match ← (addService d service strictness).run with
      | .error cause =>
          let (final, outcomes) ← addEach d strictness rest
          some (final, .rejected cause :: outcomes)
      | .ok next =>
          let (final, outcomes) ← addEach next strictness rest
          some (final, .accepted service ((next.jobOf? service).getD 0) :: outcomes)

/-- Takes on those services of a set that are not decoded yet, as far as possible. -/
def addServices (d : Decoder) (services : ServiceSet) (strictness : Strictness) :
    Option (Decoder × List Outcome) :=
  addEach d strictness (services \ d.services).toList

/-- Goes on with another sampling and as many of the services as it allows. -/
def setSampling (d : Decoder) (s : Sampling) (strictness : Strictness) :
    Checked SamplingError (Decoder × List Outcome) := do
  s.validate?
  addServices (ofSampling s) d.services strictness

/-! ## Decoding -/

/-- Tries one job on a line. -/
def tryJob (job : Job) (row : ByteArray) : Option (Option (Job × Vector UInt8 recordBytes)) :=
  match (InWords.slice job.slicer (Vector.replicate recordBytes 0) row).run with
  | none => none
  | some (.ok (some (slicer, data))) => some (some ({ job with slicer := slicer }, data))
  | some _ => some none

/-- Tries jobs on a line in the given order. -/
def tryJobs (field : Field) (line : Nat) (row : ByteArray) :
    (way : Nat) → (order : List Nat) → List Job → Option (List Job × Option Hit)
  | _, [], jobs => some (jobs, none)
  | way, number :: order, jobs =>
      match jobs[number]? with
      | none => tryJobs field line row (way + 1) order jobs
      | some job =>
          match tryJob job row with
          | none => none
          | some none => tryJobs field line row (way + 1) order jobs
          | some (some (job, data)) =>
              let jobs := jobs.set number job
              match job.identify field line data.toList with
              | some service => some (jobs, some ⟨way, service, data⟩)
              | none => tryJobs field line row (way + 1) order jobs

/-- Decodes lines with their patterns while there is room for records. -/
def decodeLines (s : Sampling) (raw : ByteArray) (probe : Bool) :
    List (Field × Nat) → List LinePattern → List Job → (room : Nat) →
      Option (List Job × List Verdict)
  | (field, index) :: sites, pattern :: patterns, jobs, room + 1 =>
      if !pattern.isTried probe then do
        let (jobs, verdicts) ← decodeLines s raw probe sites patterns jobs (room + 1)
        some (jobs, .skipped :: verdicts)
      else
        match tryJobs field (s.lineNumber field index) (s.rowOf raw field index) 0 pattern.jobs
            jobs with
        | none => none
        | some (jobs, none) => do
            let (jobs, verdicts) ← decodeLines s raw probe sites patterns jobs (room + 1)
            some (jobs, .missed :: verdicts)
        | some (jobs, some hit) => do
            let (jobs, verdicts) ← decodeLines s raw probe sites patterns jobs room
            some (jobs, .found hit :: verdicts)
  | _, patterns, jobs, _ => some (jobs, patterns.map fun _ => .skipped)

/-- Decodes a field pair into as many records as there is room for. -/
def decode (d : Decoder) (capacity : Nat) (raw : ByteArray) :
    Checked DecodeError (Decoder × List Record) := do
  let size ← d.sampling.frameSize?
  if raw.size < size then throw (.rawTooShort size raw.size)
  else
    let (jobs, verdicts) ← decodeLines d.sampling raw (d.sinceProbe == 0) d.sampling.sites
      d.patterns d.jobs capacity
    return ({ d with
      jobs := jobs
      patterns := List.zipWith Verdict.learn verdicts d.patterns
      sinceProbe := (d.sinceProbe + 1) % probePeriod }, (reports d.sampling verdicts).map (·.2))

end Decoder.InWords

end Blanking
