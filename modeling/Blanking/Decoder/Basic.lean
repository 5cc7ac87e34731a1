import Blanking.Decoder.Job
import Blanking.Decoder.Pattern

/-! # Decoders

A decoder turns field pairs into records. Its jobs are tried on the lines that may carry their
services, and it learns from one field pair to the next where they succeed: a successful job is
tried first on its line, and lines without success are only tried from time to time. The same
operations in machine words are those of `Decoder.InWords`. -/

namespace Blanking

def maxJobs : Nat := 8

/-- Blank lines are tried once in this many field pairs. -/
def probePeriod : Nat := 16

/-- Why a decoder does not take on a service. -/
inductive AddError where
  | notPermitted (cause : PermitError)
  | noSlicer (service : Service) (cause : TargetError)
  | tooManyJobs (service : Service)
  | lineFull (service : Service) (line : Nat)

namespace AddError

def message : AddError → String
  | .notPermitted cause => cause.message
  | .noSlicer service cause =>
      s!"Cannot configure bit slicer for service {service.label}: {cause.message}"
  | .tooManyJobs service => s!"No more jobs available, service {service.label} rejected"
  | .lineFull service line => s!"No free pattern slot on line {line} for service {service.label}"

/-- A lack of jobs deserves a warning; a service that does not fit the sampling is no surprise. -/
def level : AddError → Log.Level
  | .tooManyJobs _ => .warn
  | _ => .info

def entry (cause : AddError) : Log.Entry := ⟨cause.level, cause.message⟩

end AddError

/-- Why a field pair is not decoded. -/
inductive DecodeError where
  | rawTooShort (needed available : Nat)
deriving DecidableEq, Repr

def DecodeError.message : DecodeError → String
  | .rawTooShort needed available =>
      s!"Raw buffer too small: {available} bytes, sampling needs {needed}"

structure Decoder where
  sampling : Sampling
  services : ServiceSet
  jobs : List Job
  /-- What to try on each sampled line, those of the first field in front. There are no patterns
  before the first service. -/
  patterns : List LinePattern
  /-- Field pairs since blank lines were tried, zero if it is time to. -/
  sinceProbe : Nat
deriving DecidableEq

namespace Sampling

/-- All sampled lines, those of the first field in front. -/
def sites (s : Sampling) : List (Field × Nat) :=
  Field.all.flatMap fun field => (List.range (s.count.on field)).map fun index => (field, index)

def positions (start count : Nat) : List Nat := (List.range count).map (start + ·)

/-- Positions of the lines of a field that may carry a service: those of its lines, or all where
their numbers are unknown. -/
def candidatesOn (s : Sampling) (t : Transmission) (field : Field) : List Nat :=
  if !t.onField field || s.count.on field == 0 then []
  else if s.start.on field = 0 then positions (s.base field) (s.count.on field)
  else
    let first := max (t.first.on field) (s.start.on field)
    let last := min (t.last.on field) (s.lastLine field)
    positions (s.base field + (first - s.start.on field)) (last + 1 - first)

/-- Positions of the lines that may carry a service. Where fields cannot be told apart, any
line may. -/
def candidates (s : Sampling) (t : Transmission) : List Nat :=
  if s.synchronous then Field.all.flatMap (s.candidatesOn t) else List.range s.totalLines

def rowOf (s : Sampling) (raw : ByteArray) (field : Field) (index : Nat) : ByteArray :=
  let start := s.row field index * s.bytesPerLine
  raw.extract start (start + s.bytesPerLine)

end Sampling

namespace Decoder

/-- A decoder without services. -/
def ofSampling (s : Sampling) : Decoder := ⟨s, .empty, [], [], 0⟩

/-- A decoder without services, for a consistent sampling. -/
def new (s : Sampling) : Except SamplingError Decoder :=
  match s.validate with
  | .ok () => .ok (ofSampling s)
  | .error cause => .error cause

/-! ## Services -/

def register (patterns : List LinePattern) (positions : List Nat) (job : Nat) :
    List LinePattern :=
  patterns.mapIdx fun position pattern =>
    if positions.contains position then (pattern.add job).1 else pattern

/-- The first of some positions at which a job cannot be put on the line. -/
def fullLine? (patterns : List LinePattern) (positions : List Nat) (job : Nat) : Option Nat :=
  positions.find? fun position =>
    match patterns[position]? with
    | some pattern => !pattern.contains job && !pattern.hasRoom
    | none => false

/-- The jobs with one more service, and the number of the job that has it: the first one that
looks for the same signal, or else a new one. -/
def assign (d : Decoder) (service : Service) (strictness : Strictness) :
    Except AddError (List Job × Nat) :=
  match d.jobs.findIdx? fun job => (job.services.insert service).isMergeable with
  | some number =>
      .ok (d.jobs.modify number fun job =>
        { job with services := job.services.insert service }, number)
  | none =>
      if maxJobs ≤ d.jobs.length then .error (.tooManyJobs service)
      else
        match Slicer.ofTarget (.ofService service.transmission d.sampling strictness) with
        | .error cause => .error (.noSlicer service cause)
        | .ok slicer => .ok (d.jobs ++ [⟨.singleton service, slicer⟩], d.jobs.length)

/-- The patterns, or those of lines without jobs before the first service. -/
def patternsOrNew (d : Decoder) : List LinePattern :=
  if d.patterns.isEmpty then List.replicate d.sampling.totalLines .empty else d.patterns

def addService (d : Decoder) (service : Service) (strictness : Strictness) :
    Except AddError Decoder :=
  if d.services.contains service then .ok d
  else
    match d.sampling.permit service.transmission strictness with
    | .error cause => .error (.notPermitted cause)
    | .ok () =>
        match d.assign service strictness with
        | .error cause => .error cause
        | .ok (jobs, number) =>
            let patterns := d.patternsOrNew
            let positions := d.sampling.candidates service.transmission
            match fullLine? patterns positions number with
            | some line => .error (.lineFull service line)
            | none =>
                .ok { d with
                  services := d.services.insert service
                  jobs := jobs
                  patterns := register patterns positions number }

/-- The number of the job that decodes a service. -/
def jobOf? (d : Decoder) (service : Service) : Option Nat :=
  d.jobs.findIdx? fun job => job.services.contains service

/-- What becomes of one service that a decoder is asked to take on. -/
inductive Outcome where
  | accepted (service : Service) (job : Nat)
  | rejected (cause : AddError)

def Outcome.entry : Outcome → Log.Entry
  | .accepted service job => .debug s!"Decoding {service.label} with bit slicer {job}"
  | .rejected cause => cause.entry

/-- Takes on one service after the other as far as possible. -/
def addEach (d : Decoder) (strictness : Strictness) : List Service → Decoder × List Outcome
  | [] => (d, [])
  | service :: rest =>
      match d.addService service strictness with
      | .error cause =>
          let (final, outcomes) := d.addEach strictness rest
          (final, .rejected cause :: outcomes)
      | .ok next =>
          let (final, outcomes) := next.addEach strictness rest
          (final, .accepted service ((next.jobOf? service).getD 0) :: outcomes)

/-- Takes on those services of a set that are not decoded yet, as far as possible. -/
def addServices (d : Decoder) (services : ServiceSet) (strictness : Strictness) :
    Decoder × List Outcome :=
  d.addEach strictness (services \ d.services).toList

/-- The jobs from one number on without the removed services, and the patterns without the jobs
that have no service left. A job that keeps a service stays on the lines of that. -/
def dropFrom (s : Sampling) (removed : ServiceSet) :
    (number : Nat) → List Job → List LinePattern → List Job × List LinePattern
  | _, [], patterns => ([], patterns)
  | number, job :: rest, patterns =>
      if !job.services.intersects removed then
        let (jobs, patterns) := dropFrom s removed (number + 1) rest patterns
        (job :: jobs, patterns)
      else
        let remaining := job.services \ removed
        if remaining.isEmpty then
          dropFrom s removed number rest (patterns.map (·.removeAndRenumber number))
        else
          let cleared := patterns.map (·.remove number)
          let patterns := remaining.toList.foldl (fun patterns service =>
            register patterns (s.candidates service.transmission) number) cleared
          let (jobs, patterns) := dropFrom s removed (number + 1) rest patterns
          ({ job with services := remaining } :: jobs, patterns)

/-- Gives up the services of a set. -/
def removeServices (d : Decoder) (services : ServiceSet) : Decoder :=
  let removed := d.services ∩ services
  if removed.isEmpty then d
  else
    let (jobs, patterns) := dropFrom d.sampling removed 0 d.jobs d.patterns
    { d with services := d.services \ removed, jobs := jobs, patterns := patterns }

/-- Gives up all services. -/
def reset (d : Decoder) : Decoder := ofSampling d.sampling

/-- Goes on with another sampling and as many of the services as it allows. -/
def setSampling (d : Decoder) (s : Sampling) (strictness : Strictness) :
    Except SamplingError (Decoder × List Outcome) :=
  match s.validate with
  | .error cause => .error cause
  | .ok () => .ok ((ofSampling s).addServices d.services strictness)

/-! ## Decoding -/

/-- A payload that was found on a line. -/
structure Hit where
  /-- Jobs that were tried before the one that found it. -/
  way : Nat
  service : Service
  data : Vector UInt8 recordBytes

/-- Tries one job on a line. -/
def tryJob (job : Job) (row : ByteArray) : Option (Job × Vector UInt8 recordBytes) :=
  match job.slicer.slice (Vector.replicate recordBytes 0) row with
  | .ok (some (slicer, data)) => some ({ job with slicer := slicer }, data)
  | _ => none

/-- Tries jobs on a line in the given order, until one of them finds a payload that passes its
check. The slicers of all that found something have adapted to the line. -/
def tryJobs (field : Field) (line : Nat) (row : ByteArray) :
    (way : Nat) → (order : List Nat) → List Job → List Job × Option Hit
  | _, [], jobs => (jobs, none)
  | way, number :: order, jobs =>
      match jobs[number]?.bind (tryJob · row) with
      | none => tryJobs field line row (way + 1) order jobs
      | some (job, data) =>
          let jobs := jobs.set number job
          match job.identify field line data.toList with
          | some service => (jobs, some ⟨way, service, data⟩)
          | none => tryJobs field line row (way + 1) order jobs

/-- What became of one line of a field pair. -/
inductive Verdict where
  /-- The line was not tried. -/
  | skipped
  /-- All of its jobs failed. -/
  | missed
  | found (hit : Hit)

/-- Decodes lines with their patterns while there is room for records. Lines without jobs are
skipped, and so are blank ones unless it is time to probe them. -/
def decodeLines (s : Sampling) (raw : ByteArray) (probe : Bool) :
    List (Field × Nat) → List LinePattern → List Job → (room : Nat) → List Job × List Verdict
  | (field, index) :: sites, pattern :: patterns, jobs, room + 1 =>
      if !pattern.isTried probe then
        let (jobs, verdicts) := decodeLines s raw probe sites patterns jobs (room + 1)
        (jobs, .skipped :: verdicts)
      else
        match tryJobs field (s.lineNumber field index) (s.rowOf raw field index) 0 pattern.jobs
            jobs with
        | (jobs, none) =>
            let (jobs, verdicts) := decodeLines s raw probe sites patterns jobs (room + 1)
            (jobs, .missed :: verdicts)
        | (jobs, some hit) =>
            let (jobs, verdicts) := decodeLines s raw probe sites patterns jobs room
            (jobs, .found hit :: verdicts)
  | _, patterns, jobs, _ => (jobs, patterns.map fun _ => .skipped)

/-- What a line learns. -/
def Verdict.learn (verdict : Verdict) (pattern : LinePattern) : LinePattern :=
  match verdict with
  | .skipped => pattern
  | .missed => pattern.miss
  | .found hit => pattern.promote hit.way

/-- The record of a line, if something was found on it. -/
def Verdict.record? (s : Sampling) (verdict : Verdict) (site : Field × Nat) : Option Record :=
  match verdict with
  | .found hit => some ⟨.singleton hit.service, s.lineNumber site.1 site.2, hit.data⟩
  | _ => none

/-- The jobs after a field pair, and what became of each of its lines. -/
def verdicts (d : Decoder) (capacity : Nat) (raw : ByteArray) : List Job × List Verdict :=
  decodeLines d.sampling raw (d.sinceProbe == 0) d.sampling.sites d.patterns d.jobs capacity

/-- The records of the lines of a field pair, each with the line that it was found on. -/
def reports (s : Sampling) (verdicts : List Verdict) : List ((Field × Nat) × Record) :=
  (s.sites.zip verdicts).filterMap fun (site, verdict) =>
    (verdict.record? s site).map (site, ·)

/-- Decodes a field pair into as many records as there is room for, one per line at most and in
the order of the lines. -/
def decode (d : Decoder) (capacity : Nat) (raw : ByteArray) :
    Except DecodeError (Decoder × List Record) :=
  if raw.size < d.sampling.frameSize then
    .error (.rawTooShort d.sampling.frameSize raw.size)
  else
    let (jobs, verdicts) := d.verdicts capacity raw
    .ok ({ d with
      jobs := jobs
      patterns := List.zipWith Verdict.learn verdicts d.patterns
      sinceProbe := (d.sinceProbe + 1) % probePeriod }, (reports d.sampling verdicts).map (·.2))

end Decoder

/-- What is reported about a decoded line. -/
def Record.entry (record : Record) : Log.Entry :=
  .trace s!"Line {record.line}: {(record.service?.map Service.label).getD record.id.display}"

end Blanking
