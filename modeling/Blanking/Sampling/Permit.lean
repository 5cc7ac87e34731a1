import Blanking.Number.Fixed
import Blanking.Sampling.Basic
import Blanking.Service.Set
import Blanking.Service.Transmission

/-! # Which services a sampling can carry

A service is permitted if its standard, rate, place on the line, field and lines were sampled.
How much of that has to be certain is a matter of strictness. -/

namespace Blanking

/-- How sure one has to be that a service can be found in the sampled lines. -/
inductive Strictness where
  /-- The numbers of the sampled lines may be unknown. -/
  | loose
  /-- The sampled lines have to be known and to overlap those of the service. -/
  | reliable
  /-- The sampled lines have to cover those of the service. -/
  | strict
deriving DecidableEq, Repr

namespace Strictness

/-- Levels above the strictest one are taken for it. -/
def ofLevel : Nat → Strictness
  | 0 => .loose
  | 1 => .reliable
  | _ => .strict

def level : Strictness → Nat
  | .loose => 0
  | .reliable => 1
  | .strict => 2

end Strictness

/-- Why a service is not permitted. Times are in microseconds. -/
inductive PermitError where
  | wrongStandard (service : Service) (required found : StandardSet)
  | unknownLines (service : Service)
  | unsynchronized (service : Service)
  | rateTooLow (service : Service) (rate required : Nat)
  | signalTooLong (service : Service) (signal sampling : Float)
  | startsTooLate (service : Service) (start serviceStart : Float)
  | endsTooEarly (service : Service) (stop serviceStop : Float)
  | missingField (service : Service) (field : Field)
  | linesNotCovered (service : Service) (first last start stop : Nat)

namespace PermitError

/-- A time with two decimals. -/
def micros (time : Float) : String := Fixed.ofDouble 2 time

def message : PermitError → String
  | .wrongStandard service required found =>
      s!"Service {service.label} requires video standard set {required.display}, have {found.display}"
  | .unknownLines service => s!"Service {service.label} requires known line numbers"
  | .unsynchronized service => s!"Service {service.label} requires synchronous field order"
  | .rateTooLow service rate required =>
      s!"Sampling rate {rate} Hz too low for service {service.label}, needs {required} Hz"
  | .signalTooLong service signal sampling =>
      s!"Service {service.label} signal length {micros signal} us exceeds " ++
        s!"{micros sampling} us sampling length"
  | .startsTooLate service start serviceStart =>
      s!"Sampling starts at 0H + {micros start} us, too late for service {service.label} at " ++
        s!"{micros serviceStart} us"
  | .endsTooEarly service stop serviceStop =>
      s!"Sampling ends at 0H + {micros stop} us, too early for service {service.label} which " ++
        s!"ends at {micros serviceStop} us"
  | .missingField service field =>
      s!"Service {service.label} requires data from field {field.index}"
  | .linesNotCovered service first last start stop =>
      s!"Service {service.label} requires lines {first}-{last}, have {start}-{stop}"

end PermitError

namespace Sampling

/-- Seconds by which the sampled part of a line has to exceed the signal. -/
def headroom : Float := 1e-6

/-- Seconds by which sampling has to start before the signal and to end after it. -/
def margin : Float := 0.5e-6

/-- Seconds of a line that were sampled, less the headroom where it is asked for. -/
def usableTime (s : Sampling) (strictness : Strictness) : Float :=
  let time := Double.ofNat s.samplesPerLine / Double.ofNat s.rate
  if strictness = .loose then time else time - headroom

/-- The lowest sampling rate that resolves a service: half as much again as its highest bit rate.
The elements of WSS 625 are three clock periods long, so the clock rate is enough there. -/
def requiredRate (t : Transmission) : Nat :=
  let highest := max t.criRate t.bitRate
  if t.service = .wss625 then highest else highest + highest / 2

/-- Checks that the service belongs to a sampled standard. -/
def permitStandard (s : Sampling) (t : Transmission) : Except PermitError Unit :=
  if t.standards.intersects s.standards then .ok ()
  else .error (.wrongStandard t.service t.standards s.standards)

/-- Checks that line numbers are known where the service cannot do without. -/
def permitLineNumbers (s : Sampling) (t : Transmission) : Except PermitError Unit :=
  if t.needsLine && Field.all.any fun field => t.onField field && s.start.on field == 0 then
    .error (.unknownLines t.service)
  else .ok ()

/-- Checks that the samples are dense enough. -/
def permitRate (s : Sampling) (t : Transmission) : Except PermitError Unit :=
  if s.rate < requiredRate t then .error (.rateTooLow t.service s.rate (requiredRate t))
  else .ok ()

/-- Checks that a line was sampled long enough. -/
def permitDuration (s : Sampling) (t : Transmission) (strictness : Strictness) :
    Except PermitError Unit :=
  let sampling := s.usableTime strictness
  if sampling < t.duration then
    .error (.signalTooLong t.service (t.duration * 1e6) (sampling * 1e6))
  else .ok ()

/-- Checks that the sampled part of a line takes in the signal, where its place is known. -/
def permitPlace (s : Sampling) (t : Transmission) (strictness : Strictness) :
    Except PermitError Unit :=
  if s.offset = 0 || strictness = .loose then .ok ()
  else
    let start := Double.ofNat s.offset / Double.ofNat s.rate
    let stop := Double.ofNat (s.offset + s.samplesPerLine) / Double.ofNat s.rate
    let serviceStop := t.start + t.duration
    if t.start - margin < start then
      .error (.startsTooLate t.service (start * 1e6) (t.start * 1e6))
    else if stop < serviceStop + margin then
      .error (.endsTooEarly t.service (stop * 1e6) (serviceStop * 1e6))
    else .ok ()

/-- Checks that the fields can be told apart where the service cannot do without. -/
def permitFieldOrder (s : Sampling) (t : Transmission) : Except PermitError Unit :=
  if (t.needsField || t.needsLine) && !s.synchronous then .error (.unsynchronized t.service)
  else .ok ()

/-- Whether the known lines of a field suffice for a service. -/
def linesSuffice (s : Sampling) (t : Transmission) (strictness : Strictness) (field : Field) :
    Bool :=
  match strictness with
  | .loose => true
  | .reliable =>
      t.first.on field ≤ s.lastLine field && s.start.on field ≤ t.last.on field
  | .strict =>
      s.start.on field ≤ t.first.on field && t.last.on field ≤ s.lastLine field

/-- Checks that the lines of a field that carry the service were sampled. -/
def permitField (s : Sampling) (t : Transmission) (strictness : Strictness) (field : Field) :
    Except PermitError Unit :=
  if !t.onField field then .ok ()
  else if s.count.on field = 0 then .error (.missingField t.service field)
  else if s.start.on field = 0 then
    if strictness = .loose then .ok () else .error (.unknownLines t.service)
  else if s.linesSuffice t strictness field then .ok ()
  else
    .error (.linesNotCovered t.service (t.first.on field) (t.last.on field) (s.start.on field)
      (s.lastLine field))

/-- Decides whether a service can be decoded from the sampled lines. -/
def permit (s : Sampling) (t : Transmission) (strictness : Strictness) :
    Except PermitError Unit := do
  s.permitStandard t
  s.permitLineNumbers t
  s.permitRate t
  s.permitDuration t strictness
  s.permitPlace t strictness
  s.permitFieldOrder t
  s.permitField t strictness .first
  s.permitField t strictness .second

/-- Whether a known service can be decoded from the sampled lines. -/
def permits (s : Sampling) (strictness : Strictness) (service : Service) : Bool :=
  (s.permit service.transmission strictness).isOk

/-- The services of a set that can be decoded. -/
def check (s : Sampling) (services : ServiceSet) (strictness : Strictness) : ServiceSet :=
  .ofList (services.toList.filter (s.permits strictness))

/-- Why the other services of a set cannot be decoded. -/
def rejections (s : Sampling) (services : ServiceSet) (strictness : Strictness) :
    List PermitError :=
  services.toList.filterMap fun service =>
    match s.permit service.transmission strictness with
    | .ok () => none
    | .error cause => some cause

end Sampling

end Blanking
